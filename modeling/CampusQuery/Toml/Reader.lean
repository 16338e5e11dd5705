import CampusQuery.Toml
import CampusQuery.Toml.Literal
/-!
Reading TOML: from text to the outermost table of a document, or nothing if the text is not one.
-/

namespace CampusQuery.Toml

/-- A reader takes characters off the front of the text, or fails and takes none. -/
abbrev Parser :=
  StateT (List Char) Option

namespace Parser

/-- A character that passes a test. -/
def one (p : Char → Bool) : Parser Char
  | [] => none
  | c :: rest => if p c then some (c, rest) else none

/-- Exactly these characters. -/
def all (l : List Char) : Parser Unit := fun s =>
  if l.isPrefixOf s then some ((), s.drop l.length) else none

/-- The longest run of characters that pass a test. -/
def run (p : Char → Bool) : Parser (List Char) := fun s =>
  some (s.span p)

/-- What has not been taken. -/
def rest : Parser (List Char) :=
  get

/-- `p` as often as it succeeds, at most once for each character of `fuel`. -/
def repeated {α : Type} (p : Parser α) (fuel : List Char) : Parser (List α) :=
  match fuel with
  | [] => pure []
  | _ :: fuel => do
    match ← optional p with
    | none => pure []
    | some a => return a :: (← repeated p fuel)

/-- `p` as often as it succeeds; it must take something each time. -/
def many {α : Type} (p : Parser α) : Parser (List α) := do
  repeated p (← rest)

/-- Spaces and tabs. -/
def blanks : Parser Unit := do
  let _ ← run fun c => c = ' ' ∨ c = '\t'

/-- The end of a line. -/
def newline : Parser Char := do
  let _ ← optional (all ['\r'])
  one (· = '\n')

/-- A character that may stand in a comment or a literal string. -/
def isPlain (c : Char) : Bool :=
  c = '\t' ∨ (0x20 ≤ c.toNat ∧ c.toNat ≠ 0x7F)

/-- A comment, if there is one. -/
def comment : Parser Unit := do
  let _ ← optional do
    all ['#']
    run isPlain

/-- Blanks, comments and ends of lines. -/
def gap : Parser Unit := do
  blanks
  comment
  let _ ← many do
    let _ ← newline
    blanks
    comment

/-! ### Strings and keys -/

/-- A character by its number in `count` hexadecimal digits. -/
def scalar (count : Nat) : Parser Char := fun s => do
  let digits ← (s.take count).mapM (digitValue? 16)
  let n := valueOf 16 digits
  if digits.length = count ∧ n.isValidChar then some (.ofNat n, s.drop count) else none

/-- An escaped character. -/
def escape : Parser Char := do
  all ['\\']
  let c ← one fun _ => true
  if c = 'b' then return '\x08'
  if c = 't' then return '\t'
  if c = 'n' then return '\n'
  if c = 'f' then return '\x0c'
  if c = 'r' then return '\r'
  if c = '"' ∨ c = '\\' then return c
  if c = 'u' then return ← scalar 4
  if c = 'U' then return ← scalar 8
  failure

/-- A character of a string in double quotes. -/
def basicChar : Parser Char :=
  (one fun c => isPlain c ∧ c ≠ '"' ∧ c ≠ '\\') <|> escape

/-- A string on one line in double quotes. -/
def basic : Parser String := do
  all ['"']
  let l ← many basicChar
  all ['"']
  return .ofList l

/-- A string on one line in single quotes, which has no escapes. -/
def literal : Parser String := do
  all ['\'']
  let l ← run fun c => isPlain c ∧ c ≠ '\''
  all ['\'']
  return .ofList l

/-- A quote inside a string over several lines: there are fewer than three, or those in front of the
closing ones. -/
def innerQuote (quote : Char) : Parser (List Char) := do
  let quotes := ((← rest).takeWhile (· = quote)).length
  if quotes = 3 ∨ 5 < quotes then failure
  return [← one (· = quote)]

/-- A backslash at the end of a line, with the blank space behind it. -/
def continuation : Parser (List Char) := do
  all ['\\']
  blanks
  let _ ← newline
  let _ ← many ((one fun c => c = ' ' ∨ c = '\t') <|> newline)
  return []

/-- A string over several lines between three double quotes. -/
def basicLines : Parser String := do
  all ['"', '"', '"']
  let _ ← optional newline
  let l ← many ((return [← basicChar]) <|> (return [← newline]) <|> continuation <|>
    innerQuote '"')
  all ['"', '"', '"']
  return .ofList l.flatten

/-- A string over several lines between three single quotes. -/
def literalLines : Parser String := do
  all ['\'', '\'', '\'']
  let _ ← optional newline
  let l ← many ((return [← one fun c => isPlain c ∧ c ≠ '\'']) <|> (return [← newline]) <|>
    innerQuote '\'')
  all ['\'', '\'', '\'']
  return .ofList l.flatten

/-- Any string. -/
def string : Parser String :=
  basicLines <|> literalLines <|> basic <|> literal

/-- A character of a key without quotes. -/
def isBare (c : Char) : Bool :=
  c.isAlphanum ∨ c = '_' ∨ c = '-'

/-- A key without quotes. -/
def bareKey : Parser String := do
  let l ← run isBare
  if l.isEmpty then failure
  return .ofList l

/-- One part of a dotted key. -/
def simpleKey : Parser String :=
  basic <|> literal <|> bareKey

/-- The most parts of a key, and the most arrays and tables inside each other. -/
def deepest : Nat :=
  79

/-- A key: the parts before the last, and the last. -/
def key : Parser (List String × String) := do
  let first ← simpleKey
  let others ← many do
    blanks
    all ['.']
    blanks
    simpleKey
  let parts := first :: others
  if deepest < parts.length then failure
  return (parts.dropLast, parts.getLast (List.cons_ne_nil first others))

/-! ### Values -/

/-- A word: a number, a date, a time, or a truth value. -/
def word : Parser Value := do
  let l ← run fun c => c.isAlphanum ∨ c = '+' ∨ c = '-' ∨ c = '_' ∨ c = '.' ∨ c = ':'
  if let some n := integer? l then return .integer n
  if isDate l then
    let _ ← optional do
      all [' ']
      let l ← run fun c => c.isAlphanum ∨ c = '+' ∨ c = '-' ∨ c = '.' ∨ c = ':'
      if !isTimeWithOffset l then failure
    return .other
  if isFloat l || isDateTime l || l == "true".toList || l == "false".toList then return .other
  failure

/-- `p` any number of times, with commas between. -/
def separated {α : Type} (p : Parser α) : Parser (List α) := do
  let some first ← optional p | return []
  let others ← many do
    all [',']
    p
  return first :: others

/-- A value, in which arrays and tables are nested at most `depth` deep. -/
def value : (depth : Nat) → Parser Value
  | 0 => (return .text (← string)) <|> word
  | depth + 1 =>
    let item : Parser Value := do
      gap
      let v ← value depth
      gap
      return v
    let array : Parser Value := do
      all ['[']
      let items ← separated item
      if !items.isEmpty then
        let _ ← optional (all [','])
      gap
      all [']']
      return .other
    let entry : Parser ((List String × String) × Value) := do
      blanks
      let k ← key
      blanks
      all ['=']
      blanks
      let v ← value depth
      blanks
      return (k, v)
    let table : Parser Value := do
      all ['\x7b']
      let entries ← separated entry
      blanks
      all ['\x7d']
      let _ ← StateT.lift (entries.foldlM (fun (t : Table) ((path, key), v) =>
        t.insert path key v) Table.root)
      return .other
    (return .text (← string)) <|> array <|> table <|> word

/-! ### Documents -/

/-- The outermost table so far, and the path of the last header. -/
structure Document where
  root : Table
  header : List String

/-- An entry, a header, or nothing, up to the end of the line. -/
def statement (d : Document) : Parser Document := do
  blanks
  let tables : Parser Document := do
    all ['[', '[']
    blanks
    let (path, last) ← key
    blanks
    all [']', ']']
    return ⟨← StateT.lift (d.root.append path last), path ++ [last]⟩
  let table : Parser Document := do
    all ['[']
    blanks
    let (path, last) ← key
    blanks
    all [']']
    return ⟨← StateT.lift (d.root.define path last), path ++ [last]⟩
  let entry : Parser Document := do
    let (path, last) ← key
    blanks
    all ['=']
    blanks
    let v ← value deepest
    return { d with root := ← StateT.lift (d.root.update false (·.insert path last v) d.header) }
  let d ← tables <|> table <|> entry <|> pure d
  blanks
  comment
  return d

/-- Statements line by line up to the end of the text. -/
def statements (d : Document) : Nat → Parser Document
  | 0 => failure
  | fuel + 1 => do
    let d ← statement d
    if (← rest).isEmpty then return d
    let _ ← newline
    statements d fuel

/-- A whole document, which a byte order mark may precede. -/
def document : Parser Table := do
  let _ ← optional (all ['\uFEFF'])
  return (← statements ⟨.root, []⟩ ((← rest).length + 1)).root

end Parser

/-- The outermost entries of a document. -/
def read? (s : String) : Option (List (String × Value)) :=
  (Parser.document.run' s.toList).map (·.entries)

end CampusQuery.Toml
