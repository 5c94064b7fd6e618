import TouchStream.Json.Basic

/-!
# Writing JSON

Values are written without blanks. In a string only the quote, the backslash and control characters are
escaped.

Every writer puts its text in front of what follows, `tail`.
-/

namespace TouchStream.Json

/-- The hexadecimal digit of a number below 16. -/
def hexDigit (n : Nat) : Char := Nat.digitChar n

/-- A character inside a string. -/
def writeChar (c : Char) (tail : List Char) : List Char :=
  if c = '\"' then '\\' :: '\"' :: tail
  else if c = '\\' then '\\' :: '\\' :: tail
  else if c = '\n' then '\\' :: 'n' :: tail
  else if c = '\r' then '\\' :: 'r' :: tail
  else if c = '\t' then '\\' :: 't' :: tail
  else if c = '\x08' then '\\' :: 'b' :: tail
  else if c = '\x0c' then '\\' :: 'f' :: tail
  else if c.toNat < 32 then
    '\\' :: 'u' :: '0' :: '0' :: hexDigit (c.toNat / 16) :: hexDigit (c.toNat % 16) :: tail
  else c :: tail

/-- A string in its quotes. -/
def writeText (s : String) (tail : List Char) : List Char :=
  '\"' :: s.toList.foldr writeChar ('\"' :: tail)

/-- A string in its quotes. Half of a surrogate pair is written for one that no text can hold. -/
def writeString : Option String → List Char → List Char
  | some s, tail => writeText s tail
  | none, tail => '\"' :: '\\' :: 'u' :: 'd' :: '8' :: '0' :: '0' :: '\"' :: tail

mutual

/-- A value. -/
def write : Json → List Char → List Char
  | null, tail => 'n' :: 'u' :: 'l' :: 'l' :: tail
  | boolean true, tail => 't' :: 'r' :: 'u' :: 'e' :: tail
  | boolean false, tail => 'f' :: 'a' :: 'l' :: 's' :: 'e' :: tail
  | number n, tail => n.text ++ tail
  | string s, tail => writeString s tail
  | array [], tail => '[' :: ']' :: tail
  | array (v :: vs), tail => '[' :: write v (writeItems vs (']' :: tail))
  | object [], tail => '\x7b' :: '\x7d' :: tail
  | object ((k, v) :: ms), tail =>
    '\x7b' :: writeString k (':' :: write v (writeMembers ms ('\x7d' :: tail)))

/-- The items of an array after the first, each after a comma. -/
def writeItems : List Json → List Char → List Char
  | [], tail => tail
  | v :: vs, tail => ',' :: write v (writeItems vs tail)

/-- The members of an object after the first, each after a comma. -/
def writeMembers : List (Option String × Json) → List Char → List Char
  | [], tail => tail
  | (k, v) :: ms, tail => ',' :: writeString k (':' :: write v (writeMembers ms tail))

end

/-- The text of a value. -/
def render (v : Json) : String := String.ofList (write v [])

end TouchStream.Json
