import TouchStream.Json.Basic

/-!
# Reading JSON

The reader accepts the texts of RFC 8259 and no others. Escaped halves of a surrogate pair are put together
where they stand side by side.

* `Json.read?`: the value of a whole text.
* `Json.Reader.value`: the value at the head of a text, with the rest of the text.
-/

namespace TouchStream.Json

namespace Reader

/-- The blanks that may stand between the parts of a text. -/
def isBlank (c : Char) : Bool := c == ' ' || c == '\n' || c == '\r' || c == '\t'

/-- The text after its leading blanks. -/
def skipBlanks (cs : List Char) : List Char := cs.dropWhile isBlank

/-! ## Strings -/

/-- A piece of a string: a character, or half of a surrogate pair. -/
inductive Piece
  | char (c : Char)
  | surrogate (unit : Nat)
deriving DecidableEq, Repr

/-- The piece that a 16-bit unit stands for. -/
def pieceOfUnit (unit : Nat) : Piece :=
  if 0xD800 ≤ unit ∧ unit < 0xE000 then .surrogate unit else .char (Char.ofNat unit)

/-- The character that an escape with one letter stands for. -/
def escapedChar : Char → Option Char
  | '\"' => some '\"'
  | '\\' => some '\\'
  | '/' => some '/'
  | 'b' => some '\x08'
  | 'f' => some '\x0c'
  | 'n' => some '\n'
  | 'r' => some '\r'
  | 't' => some '\t'
  | _ => none

/-- The pieces of a string up to its closing quote, and the rest. -/
def pieces : List Char → Option (List Piece × List Char)
  | [] => none
  | '\"' :: rest => some ([], rest)
  | '\\' :: 'u' :: a :: b :: c :: d :: rest =>
    match numberIn? 16 [a, b, c, d], pieces rest with
    | some unit, some (ps, rest) => some (pieceOfUnit unit :: ps, rest)
    | _, _ => none
  | '\\' :: e :: rest =>
    match escapedChar e, pieces rest with
    | some c, some (ps, rest) => some (.char c :: ps, rest)
    | _, _ => none
  | c :: rest =>
    if c.toNat < 32 then none
    else
      match pieces rest with
      | some (ps, rest) => some (.char c :: ps, rest)
      | none => none

/-- The characters of the pieces of a string, if every surrogate has its other half beside it. -/
def joinPieces : List Piece → Option (List Char)
  | [] => some []
  | .char c :: ps => (joinPieces ps).map (c :: ·)
  | .surrogate high :: .surrogate low :: ps =>
    if high < 0xDC00 ∧ 0xDC00 ≤ low then
      (joinPieces ps).map (Char.ofNat (0x10000 + (high - 0xD800) * 0x400 + (low - 0xDC00)) :: ·)
    else none
  | .surrogate _ :: _ => none

/-- The string after its opening quote, and the rest. -/
def stringTail (cs : List Char) : Option (Option String × List Char) :=
  (pieces cs).map fun (ps, rest) => ((joinPieces ps).map String.ofList, rest)

/-! ## Values -/

mutual

/-- The value at the head of a text, and the rest. -/
def value : (fuel : Nat) → List Char → Option (Json × List Char)
  | 0, _ => none
  | fuel + 1, cs =>
    match cs with
    | 'n' :: 'u' :: 'l' :: 'l' :: rest => some (null, rest)
    | 't' :: 'r' :: 'u' :: 'e' :: rest => some (boolean true, rest)
    | 'f' :: 'a' :: 'l' :: 's' :: 'e' :: rest => some (boolean false, rest)
    | '\"' :: rest => (stringTail rest).map fun (s, rest) => (string s, rest)
    | '[' :: rest =>
      match skipBlanks rest with
      | ']' :: rest => some (array [], rest)
      | rest => (items fuel rest).map fun (vs, rest) => (array vs, rest)
    | '\x7b' :: rest =>
      match skipBlanks rest with
      | '\x7d' :: rest => some (object [], rest)
      | rest => (members fuel rest).map fun (ms, rest) => (object ms, rest)
    | cs => (Numeral.scan cs).map fun (n, rest) => (number n, rest)

/-- The items of an array up to its closing bracket, and the rest. -/
def items : (fuel : Nat) → List Char → Option (List Json × List Char)
  | 0, _ => none
  | fuel + 1, cs =>
    match value fuel cs with
    | none => none
    | some (v, rest) =>
      match skipBlanks rest with
      | ']' :: rest => some ([v], rest)
      | ',' :: rest => (items fuel (skipBlanks rest)).map fun (vs, rest) => (v :: vs, rest)
      | _ => none

/-- The members of an object up to its closing brace, and the rest. -/
def members : (fuel : Nat) → List Char → Option (List (Option String × Json) × List Char)
  | 0, _ => none
  | fuel + 1, '\"' :: cs =>
    match stringTail cs with
    | none => none
    | some (k, rest) =>
      match skipBlanks rest with
      | ':' :: rest =>
        match value fuel (skipBlanks rest) with
        | none => none
        | some (v, rest) =>
          match skipBlanks rest with
          | '\x7d' :: rest => some ([(k, v)], rest)
          | ',' :: rest =>
            (members fuel (skipBlanks rest)).map fun (ms, rest) => ((k, v) :: ms, rest)
          | _ => none
      | _ => none
  | _ + 1, _ => none

end

end Reader

/-- The value of a whole text. No reader is called more often within another than the text is long. -/
def read? (text : String) : Option Json :=
  let cs := text.toList
  match Reader.value (cs.length + 1) (Reader.skipBlanks cs) with
  | some (v, rest) => if (Reader.skipBlanks rest).isEmpty then some v else none
  | none => none

end TouchStream.Json
