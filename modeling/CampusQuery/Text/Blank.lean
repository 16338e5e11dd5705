/-!
White space in the sense of Unicode: the characters with the property `White_Space`, and the cutting
of texts at them.
-/

namespace CampusQuery.Text

/-- The characters with the property `White_Space`. -/
def isBlank (c : Char) : Bool :=
  let n := c.toNat
  (0x09 ≤ n && n ≤ 0x0D) || n == 0x20 || n == 0x85 || n == 0xA0 || n == 0x1680 ||
    (0x2000 ≤ n && n ≤ 0x200A) || n == 0x2028 || n == 0x2029 || n == 0x202F || n == 0x205F ||
    n == 0x3000

/-- The characters without blanks in front. -/
def dropBlanks (l : List Char) : List Char :=
  l.dropWhile isBlank

/-- The characters without blanks at either end. -/
def trimChars (l : List Char) : List Char :=
  (dropBlanks (dropBlanks l).reverse).reverse

/-- The text without blanks at either end. -/
def trim (s : String) : String :=
  .ofList (trimChars s.toList)

/-- The text holds blanks only, if anything. -/
def allBlank (s : String) : Bool :=
  s.toList.all isBlank

/-- The longest runs of characters that are not blank. The run at hand is kept in reverse. -/
def wordsFrom (run : List Char) : List Char → List String
  | [] => if run.isEmpty then [] else [.ofList run.reverse]
  | c :: rest =>
    if isBlank c then
      if run.isEmpty then wordsFrom [] rest else .ofList run.reverse :: wordsFrom [] rest
    else wordsFrom (c :: run) rest

/-- The words of a text: what stands between blanks. -/
def words (s : String) : List String :=
  wordsFrom [] s.toList

/-- A line without the carriage return at its end. -/
def endLine (reversed : List Char) : String :=
  match reversed with
  | '\r' :: rest => .ofList rest.reverse
  | _ => .ofList reversed.reverse

/-- The lines of a text. The line at hand is kept in reverse; the last one counts if it has
characters, and keeps a carriage return. -/
def linesFrom (line : List Char) : List Char → List String
  | [] => if line.isEmpty then [] else [.ofList line.reverse]
  | c :: rest => if c = '\n' then endLine line :: linesFrom [] rest else linesFrom (c :: line) rest

/-- The lines of a text, each ended by a line feed with or without a carriage return before it. -/
def lines (s : String) : List String :=
  linesFrom [] s.toList

/-- Every blank of ASCII is a blank. -/
example : [' ', '\t', '\n', '\r'].all isBlank = true := by decide

example : trim "\u3000 a b\t" = "a b" := by decide

example : words " .add  ubc\u3000x " = [".add", "ubc", "x"] := by decide

example : lines "a\r\n\nb" = ["a", "", "b"] ∧ lines "a\n" = ["a"] ∧ lines "" = [] := by decide

end CampusQuery.Text
