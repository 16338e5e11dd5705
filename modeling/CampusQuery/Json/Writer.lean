import CampusQuery.Json
/-!
The two layouts of JSON text: compact, without any blank, and pretty, with an indent of two for
each level. Characters outside ASCII stand as they are.
-/

namespace CampusQuery.Json

/-- The lower-case hexadecimal digit of `n`. -/
def hexDigit (n : Nat) : Char :=
  Nat.digitChar (n % 16)

/-- A character as it stands in a string: quotes, backslashes and control characters are escaped. -/
def escaped (c : Char) : List Char :=
  if c = '"' then ['\\', '"']
  else if c = '\\' then ['\\', '\\']
  else if c = '\n' then ['\\', 'n']
  else if c = '\r' then ['\\', 'r']
  else if c = '\t' then ['\\', 't']
  else if c = '\x08' then ['\\', 'b']
  else if c = '\x0c' then ['\\', 'f']
  else if c.toNat < 0x20 then
    ['\\', 'u', '0', '0', hexDigit (c.toNat / 16), hexDigit c.toNat]
  else [c]

/-- A string between quotes. -/
def quoted (s : String) : List Char :=
  '"' :: s.toList.flatMap escaped ++ ['"']

/-- The text of a number. -/
def numberChars : Number → List Char
  | .integer n => (if n < 0 then ['-'] else []) ++ Nat.toDigits 10 n.natAbs
  | .double x => if x.isFinite then x.jsonChars else "null".toList

mutual
/-- The compact text. -/
def chars : Json → List Char
  | .null => "null".toList
  | .bool b => if b then "true".toList else "false".toList
  | .number n => numberChars n
  | .string s => quoted s
  | .array items => '[' :: itemsChars items ++ [']']
  | .object members => '\x7b' :: membersChars members ++ ['\x7d']

@[inherit_doc chars]
def itemsChars : List Json → List Char
  | [] => []
  | j :: items => j.chars ++ if items.isEmpty then [] else ',' :: itemsChars items

@[inherit_doc chars]
def membersChars : List (String × Json) → List Char
  | [] => []
  | (key, j) :: members =>
    quoted key ++ ':' :: j.chars ++ if members.isEmpty then [] else ',' :: membersChars members
end

/-- The compact text. -/
def compact (j : Json) : String :=
  .ofList j.chars

/-- A line feed and the indent of a level. -/
def newline (level : Nat) : List Char :=
  '\n' :: List.replicate (2 * level) ' '

mutual
/-- The pretty text of a value that stands at `level`. -/
def prettyChars (level : Nat) : Json → List Char
  | .array items =>
    if items.isEmpty then ['[', ']']
    else '[' :: prettyItems (level + 1) items ++ newline level ++ [']']
  | .object members =>
    if members.isEmpty then ['\x7b', '\x7d']
    else '\x7b' :: prettyMembers (level + 1) members ++ newline level ++ ['\x7d']
  | j => j.chars

@[inherit_doc prettyChars]
def prettyItems (level : Nat) : List Json → List Char
  | [] => []
  | j :: items =>
    newline level ++ j.prettyChars level ++
      if items.isEmpty then [] else ',' :: prettyItems level items

@[inherit_doc prettyChars]
def prettyMembers (level : Nat) : List (String × Json) → List Char
  | [] => []
  | (key, j) :: members =>
    newline level ++ quoted key ++ ':' :: ' ' :: j.prettyChars level ++
      if members.isEmpty then [] else ',' :: prettyMembers level members
end

/-- The pretty text. -/
def pretty (j : Json) : String :=
  .ofList (j.prettyChars 0)

end CampusQuery.Json
