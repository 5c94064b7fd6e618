import TouchStream.Number.Decimal
import TouchStream.Toml.Table

/-!
# The words of TOML

What a document is made of below the level of values: blanks, comments and line ends, the four forms of
strings, and keys. Each function takes what stands at the head of a text and gives the rest.

* `Toml.lineEnd?`, `Toml.skipSpace`: what may stand after a statement, and between the items of an array.
* `Toml.StringForm.tail?`: a string after its opening quotes.
* `Toml.key?`: a dotted key.
-/

namespace TouchStream.Toml

/-! ## Blanks, comments, line ends -/

/-- The blanks within a line. -/
def isBlank (c : Char) : Bool := c == ' ' || c == '\t'

/-- The text after its leading blanks. -/
def skipBlanks (cs : List Char) : List Char := cs.dropWhile isBlank

/-- The characters of comments, and of strings but for their quotes and escapes: all but the control
characters, with the tab. -/
def isPrintable (c : Char) : Bool := c == '\t' || (32 ≤ c.toNat && c.toNat ≠ 127)

/-- The text after a line end. -/
def newline? : List Char → Option (List Char)
  | '\n' :: rest => some rest
  | '\r' :: '\n' :: rest => some rest
  | _ => none

/-- The text after a comment, if there is one. -/
def skipComment : List Char → List Char
  | '#' :: rest => rest.dropWhile isPrintable
  | cs => cs

/-- The text after the end of a line, which blanks and a comment may precede. The end of the text ends a line
too. -/
def lineEnd? (cs : List Char) : Option (List Char) :=
  match skipComment (skipBlanks cs) with
  | [] => some []
  | cs => newline? cs

/-- The text after blanks, line ends and comments. -/
def skipSpace : (inComment : Bool) → List Char → List Char
  | _, [] => []
  | _, '\n' :: rest => skipSpace false rest
  | _, '\r' :: '\n' :: rest => skipSpace false rest
  | true, c :: rest => if isPrintable c then skipSpace true rest else c :: rest
  | false, c :: rest =>
    if isBlank c then skipSpace false rest
    else if c == '#' then skipSpace true rest
    else c :: rest

/-! ## Strings -/

/-- The forms of strings: what quotes them, and whether they are blocks, in triple quotes, which may hold line
ends. -/
structure StringForm where
  quote : Char
  isBlock : Bool
deriving DecidableEq, Repr

/-- The form of a string with the text after its opening quotes. A line end right after the opening quotes of
a block does not belong to it. -/
def stringForm? : List Char → Option (StringForm × List Char)
  | '\"' :: '\"' :: '\"' :: rest => some (⟨'\"', true⟩, (newline? rest).getD rest)
  | '\"' :: rest => some (⟨'\"', false⟩, rest)
  | '\'' :: '\'' :: '\'' :: rest => some (⟨'\'', true⟩, (newline? rest).getD rest)
  | '\'' :: rest => some (⟨'\'', false⟩, rest)
  | _ => none

/-- The character that an escape with one letter stands for. -/
def escapedChar : Char → Option Char
  | '\"' => some '\"'
  | '\\' => some '\\'
  | 'b' => some '\x08'
  | 'f' => some '\x0c'
  | 'n' => some '\n'
  | 'r' => some '\r'
  | 't' => some '\t'
  | _ => none

/-- The character whose number is written in hexadecimal digits. -/
def numberedChar (digits : List Char) : Option Char :=
  match numberIn? 16 digits with
  | some n => if n < 0xD800 ∨ (0xE000 ≤ n ∧ n < 0x110000) then some (Char.ofNat n) else none
  | none => none

namespace StringForm

/-- Double quotes allow escapes. -/
def escapes (f : StringForm) : Bool := f.quote == '\"'

/-- Where a string closes: the quotes that still belong to it, and the text after it. Up to two quotes may
stand before the closing ones of a block. -/
def close? (f : StringForm) (cs : List Char) : Option (List Char × List Char) :=
  let run := (cs.takeWhile (· == f.quote)).length
  if f.isBlock then
    if run < 3 then none else some (List.replicate (min run 5 - 3) f.quote, cs.drop (min run 5))
  else if run = 0 then none else some ([], cs.drop 1)

/-- The characters of a string up to its closing quotes, and the rest. While `joining`, after an escaped line
end, blanks and line ends are passed over. -/
def chars? (f : StringForm) : (joining : Bool) → List Char → Option (List Char × List Char)
  | _, [] => none
  | joining, c :: rest =>
    match f.close? (c :: rest) with
    | some closed => some closed
    | none =>
      if c == '\n' then
        if !f.isBlock then none
        else if joining then chars? f true rest
        else (chars? f false rest).map fun (s, rest) => ('\n' :: s, rest)
      else if c == '\r' then
        -- A carriage return belongs to the line end after it.
        if f.isBlock && rest.head? == some '\n' then chars? f joining rest else none
      else if joining && isBlank c then chars? f true rest
      else if c == '\\' && f.escapes then
        if f.isBlock && (newline? (skipBlanks rest)).isSome then chars? f true rest
        else
          match rest with
          | 'u' :: a :: b :: c :: d :: rest =>
            match numberedChar [a, b, c, d], chars? f false rest with
            | some x, some (s, rest) => some (x :: s, rest)
            | _, _ => none
          | 'U' :: a :: b :: c :: d :: i :: j :: k :: l :: rest =>
            match numberedChar [a, b, c, d, i, j, k, l], chars? f false rest with
            | some x, some (s, rest) => some (x :: s, rest)
            | _, _ => none
          | e :: rest =>
            match escapedChar e, chars? f false rest with
            | some x, some (s, rest) => some (x :: s, rest)
            | _, _ => none
          | [] => none
      else if isPrintable c then (chars? f false rest).map fun (s, rest) => (c :: s, rest)
      else none

/-- The string after its opening quotes, and the rest. -/
def tail? (f : StringForm) (cs : List Char) : Option (String × List Char) :=
  (f.chars? false cs).map fun (s, rest) => (String.ofList s, rest)

end StringForm

/-- The string at the head of a text, and the rest. -/
def string? (cs : List Char) : Option (String × List Char) :=
  match stringForm? cs with
  | some (f, rest) => f.tail? rest
  | none => none

/-! ## Keys -/

/-- The characters of a key without quotes. -/
def isBare (c : Char) : Bool := c.isAlphanum || c == '-' || c == '_'

/-- One part of a key. Where it is a string, that is no block. -/
def keyPart? : List Char → Option (String × List Char)
  | '\"' :: rest => StringForm.tail? ⟨'\"', false⟩ rest
  | '\'' :: rest => StringForm.tail? ⟨'\'', false⟩ rest
  | cs =>
    match cs.span isBare with
    | ([], _) => none
    | (part, rest) => some (String.ofList part, rest)

/-- A dotted key of at most so many parts. Blanks may stand around each part. -/
def keyOf? : (parts : Nat) → List Char → Option (Key × List Char)
  | 0, _ => none
  | parts + 1, cs =>
    match keyPart? (skipBlanks cs) with
    | none => none
    | some (part, rest) =>
      match skipBlanks rest with
      | '.' :: rest => (keyOf? parts rest).map fun (k, rest) => (⟨part :: k.path, k.last⟩, rest)
      | rest => some (⟨[], part⟩, rest)

/-- Neither keys nor values may be nested as deep as this. -/
def nestingLimit : Nat := 80

/-- The dotted key at the head of a text, and the rest. -/
def key? (cs : List Char) : Option (Key × List Char) := keyOf? (nestingLimit - 1) cs

end TouchStream.Toml
