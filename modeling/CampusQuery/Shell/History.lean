import CampusQuery.Text.Blank
/-!
The entries of earlier sessions.

A file of entries has one a line. In the newer form, marked by its first line, line feeds and
backslashes inside entries are escaped.
-/

namespace CampusQuery.Shell.History

/-- At most so many entries are kept, the latest. -/
def capacity : Nat :=
  100

/-- Bare listings show so many entries, the latest. -/
def shown : Nat :=
  20

/-- The first line of a file in the newer form. -/
def marker : String :=
  "#V2"

/-- An entry without its escapes, if all of them are escapes. -/
def unescape? : List Char → Option (List Char)
  | [] => some []
  | '\\' :: 'n' :: rest => (unescape? rest).map ('\n' :: ·)
  | '\\' :: '\\' :: rest => (unescape? rest).map ('\\' :: ·)
  | '\\' :: _ => none
  | c :: rest => (unescape? rest).map (c :: ·)

/-- Adds an entry, unless it is empty, starts with a blank, or repeats the latest one. -/
def add (entries : List String) (entry : String) : List String :=
  if entry.toList.head?.all Text.isBlank || entries.getLast? == some entry then entries
  else (entries ++ [entry]).drop (entries.length + 1 - capacity)

/-- The entries in the text of a file. -/
def ofText (text : String) : List String :=
  match Text.lines text with
  | [] => []
  | first :: rest =>
    if first = marker then
      (rest.map fun line => ((unescape? line.toList).map String.ofList).getD line).foldl add []
    else (first :: rest).foldl add []

/-- Entry `n`, counting from one. -/
def entryAt? (entries : List String) (n : Nat) : Option String :=
  if n = 0 then none else entries[n - 1]?

/-- The entry starts with `.history`. -/
def isRefused (entry : String) : Bool :=
  ".history".toList.isPrefixOf (Text.dropBlanks entry.toList)

/-- An entry on one line of at most `width` characters. -/
def oneLine (entry : String) (width : Nat) : String :=
  let flat := [' '].intercalate ((Text.words entry).map String.toList)
  .ofList (if width < flat.length then flat.take (width - 3) ++ ['.', '.', '.'] else flat)

example : ofText "#V2\n.mode\n.mode\n a\n\nx\\ny\\\\\\nz\n" = [".mode", "x\ny\\\nz"] := by
  decide +kernel

example : oneLine "a\n  b" 60 = "a b" ∧ oneLine "abcdefgh" 6 = "abc..." := by decide

end CampusQuery.Shell.History
