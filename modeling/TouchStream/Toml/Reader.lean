import TouchStream.Toml.Scalar

/-!
# Reading TOML

A document is a sequence of statements, each on lines of its own: assignments, and headers that open the table
to which the assignments after them belong.

* `Toml.value?`: a value, arrays and inline tables included.
* `Toml.statements?`: the statements of a document.
* `Toml.read?`: the table that a document describes.
-/

namespace TouchStream.Toml

/-! ## Values -/

/-- The table that the assignments within braces make. -/
def inlineTable? (pairs : List (Key × Datum)) : Option Table :=
  pairs.foldlM (fun t (k, d) => assign k d t) []

mutual

/-- The value at the head of a text, and the rest. Arrays and inline tables may be nested up to `levels`
deep. -/
def valueOf? : (fuel levels : Nat) → List Char → Option (Datum × List Char)
  | 0, _, _ => none
  | _ + 1, 0, '[' :: _ => none
  | _ + 1, 0, '\x7b' :: _ => none
  | fuel + 1, levels + 1, '[' :: rest =>
    (items? fuel levels rest).map fun (ds, rest) => (.list ds, rest)
  | fuel + 1, levels + 1, '\x7b' :: rest =>
    match skipBlanks rest with
    | '\x7d' :: rest => some (.record [], rest)
    | rest =>
      match pairs? fuel levels rest with
      | none => none
      | some (pairs, rest) => (inlineTable? pairs).map fun t => (t.datum, rest)
  | _ + 1, _, cs => scalar? cs

/-- The items of an array up to its closing bracket, and the rest. A comma may stand after the last one. -/
def items? : (fuel levels : Nat) → List Char → Option (List Datum × List Char)
  | 0, _, _ => none
  | fuel + 1, levels, cs =>
    match skipSpace false cs with
    | ']' :: rest => some ([], rest)
    | cs =>
      match valueOf? fuel levels cs with
      | none => none
      | some (d, rest) =>
        match skipSpace false rest with
        | ']' :: rest => some ([d], rest)
        | ',' :: rest => (items? fuel levels rest).map fun (ds, rest) => (d :: ds, rest)
        | _ => none

/-- The assignments within braces up to the closing one, and the rest. All stand on one line. -/
def pairs? : (fuel levels : Nat) → List Char → Option (List (Key × Datum) × List Char)
  | 0, _, _ => none
  | fuel + 1, levels, cs =>
    match key? cs with
    | some (k, '=' :: rest) =>
      match valueOf? fuel levels (skipBlanks rest) with
      | none => none
      | some (d, rest) =>
        match skipBlanks rest with
        | '\x7d' :: rest => some ([(k, d)], rest)
        | ',' :: rest => (pairs? fuel levels rest).map fun (ps, rest) => ((k, d) :: ps, rest)
        | _ => none
    | _ => none

end

/-- The value at the head of a text, and the rest. No reader is called more often within another than the
text is long. -/
def value? (cs : List Char) : Option (Datum × List Char) :=
  valueOf? (2 * cs.length + 1) (nestingLimit - 1) cs

/-! ## Statements -/

/-- A statement of a document. -/
inductive Statement where
  | assignment (key : Key) (d : Datum)
  /-- Opens a table. -/
  | header (key : Key)
  /-- Opens a new element of an array of tables. -/
  | elementHeader (key : Key)

/-- The statement at the head of a text, and the rest of its line with the lines after it. -/
def statement? : List Char → Option (Statement × List Char)
  | '[' :: '[' :: cs =>
    match key? cs with
    | some (k, ']' :: ']' :: rest) => some (.elementHeader k, rest)
    | _ => none
  | '[' :: cs =>
    match key? cs with
    | some (k, ']' :: rest) => some (.header k, rest)
    | _ => none
  | cs =>
    match key? cs with
    | some (k, '=' :: rest) =>
      (value? (skipBlanks rest)).map fun (d, rest) => (.assignment k d, rest)
    | _ => none

/-- The statements of at most so many lines. -/
def statementsOf? : (lines : Nat) → List Char → Option (List Statement)
  | 0, _ => none
  | lines + 1, cs =>
    match skipBlanks cs with
    | [] => some []
    | cs =>
      match lineEnd? cs with
      | some rest => statementsOf? lines rest
      | none =>
        match statement? cs with
        | none => none
        | some (s, rest) =>
          match lineEnd? rest with
          | none => none
          | some rest => (statementsOf? lines rest).map (s :: ·)

/-- The statements of a document. -/
def statements? (cs : List Char) : Option (List Statement) := statementsOf? (cs.length + 1) cs

/-! ## Documents -/

/-- A document as far as it has been read: the parts of the last header, and the table of all statements. -/
structure Document where
  opened : List String := []
  table : Table := []

namespace Document

/-- Carries out one statement. -/
def add (doc : Document) : Statement → Option Document
  | .assignment k d =>
    (within (assign k d) doc.opened doc.table).map fun t => ⟨doc.opened, t⟩
  | .header k => (openTable k doc.table).map fun t => ⟨k.parts, t⟩
  | .elementHeader k => (openElement k doc.table).map fun t => ⟨k.parts, t⟩

end Document

/-- The text without the mark of its byte order. -/
def dropByteOrderMark : List Char → List Char
  | '\ufeff' :: rest => rest
  | cs => cs

/-- The table that a document describes. -/
def read? (cs : List Char) : Option Table :=
  match statements? (dropByteOrderMark cs) with
  | none => none
  | some ss => (ss.foldlM Document.add {}).map (·.table)

/-- The data of a text. -/
def readDatum? (text : String) : Option Datum := (read? text.toList).map (·.datum)

end TouchStream.Toml
