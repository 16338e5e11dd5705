import CampusQuery.Double.Scaled
import CampusQuery.Json
/-!
From text to tokens.

A text is a list of symbols: its characters, and the bytes that belong to no character. `scan` is
an automaton that takes one symbol after the other, so that the tokens of a longer text follow from
the state in which a shorter one was left. Numbers and strings that have the form of their kind but
no value stay tokens, since a reader that skips a value does not ask for it.
-/

namespace CampusQuery.Json

/-- A character of a text, or a byte of it outside every character. -/
inductive Symbol
  | char (c : Char)
  | stray
deriving DecidableEq, Repr

/-- What a reader works on. -/
abbrev Text :=
  List Symbol

namespace Text

/-- The symbols of a string. -/
def ofString (s : String) : Text :=
  s.toList.map .char

/-- The symbols from byte `i` on, put in front of `done` in reverse. -/
def decodeFrom (bytes : ByteArray) (i : Nat) (done : Text) : Text :=
  if _h : i < bytes.size then
    match bytes.utf8DecodeChar? i with
    | some c => decodeFrom bytes (i + c.utf8Size) (.char c :: done)
    | none => decodeFrom bytes (i + 1) (.stray :: done)
  else done
termination_by bytes.size - i
decreasing_by
  · have := c.utf8Size_pos
    omega
  · omega

/-- The symbols of a file: its characters in UTF-8, and each other byte by itself. -/
def ofBytes (bytes : ByteArray) : Text :=
  (decodeFrom bytes 0 []).reverse

end Text

/-- How a text fails to be JSON: more of it could make it right, or nothing could. -/
inductive ReadError
  | endedEarly
  | malformed
deriving DecidableEq, Repr

inductive Token
  | openArray
  | closeArray
  | openObject
  | closeObject
  | comma
  | colon
  | null
  | bool (b : Bool)
  /-- A number; no value where it is beyond all doubles. -/
  | number (value : Option Number)
  /-- A string; no value where a part of it stands for no character. -/
  | string (value : Option String)
  /-- The start of a token that does not go on as one. -/
  | broken (inString : Bool) (error : ReadError)
deriving DecidableEq

/-! ### Numbers -/

/-- Where in a number the text stands. -/
inductive NumeralStage
  | sign
  | zero
  | whole
  | point
  | places
  | exponentMark
  | exponentSign
  | exponent
deriving DecidableEq, Repr

/-- A number as far as it has been read. Its digits stand for `significand · 10 ^ power`. Of the
digits before the point, and of those behind it, the first that takes the significand beyond
sixty-four bits is left out, with all that follow: such a part is `full`. -/
structure Numeral where
  stage : NumeralStage
  negative : Bool
  significand : UInt64
  power : Int
  full : Bool
  exponentNegative : Bool
  exponent : Nat

namespace Numeral

/-- The value of a decimal digit. -/
def digit? (c : Char) : Option Nat :=
  if '0' ≤ c ∧ c ≤ '9' then some (c.toNat - '0'.toNat) else none

/-- A number of which a sign or the first digit has been read. -/
def first (stage : NumeralStage) (negative : Bool) (d : Nat) : Numeral :=
  ⟨stage, negative, .ofNat d, 0, false, false, 0⟩

/-- The stage after the first digit. -/
def firstStage (d : Nat) : NumeralStage :=
  if d = 0 then .zero else .whole

/-- The number that starts with `c`. -/
def start? (c : Char) : Option Numeral :=
  if c = '-' then some (first .sign true 0)
  else (digit? c).map fun d => first (firstStage d) false d

/-- What a character does to a number. -/
inductive Push
  | more (n : Numeral)
  | over
  | bad

/-- The significand with a further digit, unless the digit is left out. -/
def extended? (n : Numeral) (d : Nat) : Option UInt64 :=
  if n.full = false ∧ n.significand.toNat * 10 + d < UInt64.size then
    some (.ofNat (n.significand.toNat * 10 + d))
  else none

/-- A further digit before the point. One that is left out counts as a zero. -/
def withDigit (n : Numeral) (d : Nat) : Numeral :=
  match n.extended? d with
  | some significand => { n with significand }
  | none => { n with power := n.power + 1, full := true }

/-- A further digit behind the point. -/
def withPlace (n : Numeral) (d : Nat) : Numeral :=
  match n.extended? d with
  | some significand => { n with stage := .places, significand, power := n.power - 1 }
  | none => { n with stage := .places, full := true }

/-- The next character, which either belongs to the number, or ends it, or may not stand here. -/
def push (n : Numeral) (c : Char) : Push :=
  match n.stage with
  | .sign =>
    match digit? c with
    | some d => .more (first (firstStage d) n.negative d)
    | none => .bad
  | .zero =>
    if (digit? c).isSome then .bad
    else if c = '.' then .more { n with stage := .point, full := false }
    else if c = 'e' ∨ c = 'E' then .more { n with stage := .exponentMark }
    else .over
  | .whole =>
    match digit? c with
    | some d => .more (n.withDigit d)
    | none =>
      if c = '.' then .more { n with stage := .point, full := false }
      else if c = 'e' ∨ c = 'E' then .more { n with stage := .exponentMark }
      else .over
  | .point =>
    match digit? c with
    | some d => .more (n.withPlace d)
    | none => .bad
  | .places =>
    match digit? c with
    | some d => .more (n.withPlace d)
    | none => if c = 'e' ∨ c = 'E' then .more { n with stage := .exponentMark } else .over
  | .exponentMark =>
    match digit? c with
    | some d => .more { n with stage := .exponent, exponent := d }
    | none =>
      if c = '+' then .more { n with stage := .exponentSign }
      else if c = '-' then .more { n with stage := .exponentSign, exponentNegative := true }
      else .bad
  | .exponentSign =>
    match digit? c with
    | some d => .more { n with stage := .exponent, exponent := d }
    | none => .bad
  | .exponent =>
    match digit? c with
    | some d => .more { n with exponent := n.exponent * 10 + d }
    | none => .over

/-- A double that is finite. -/
def finite? (x : Double) : Option Number :=
  if x.isFinite then some (.double x) else none

/-- The value of a literal of sixty-four bits without point and exponent: it stays whole as far as
its sign allows, and `-0` is the negative zero. -/
def wholeValue (negative : Bool) (significand : UInt64) : Option Number :=
  if negative then
    if significand = 0 then some (.double (.ofMagnitude true 0))
    else if significand ≤ 0x8000000000000000 then some (.integer (-significand.toNat))
    else finite? (.ofFraction true significand.toNat 1)
  else some (.integer significand.toNat)

/-- The value of the digits and of the exponent as a double. -/
def doubleValue (n : Numeral) : Option Number :=
  let exponent : Int := if n.exponentNegative then -n.exponent else n.exponent
  finite? (.scaled n.negative n.significand (n.power + exponent))

/-- The token of a number that ends here. -/
def token (n : Numeral) : Token :=
  match n.stage with
  | .zero | .whole =>
    .number (if n.full then n.doubleValue else wholeValue n.negative n.significand)
  | .places | .exponent => .number n.doubleValue
  | _ => .broken false .endedEarly

end Numeral

/-! ### Strings -/

/-- Where in a string the text stands. A surrogate that asks for its partner is carried along. -/
inductive Escape
  | plain
  | backslash
  | unicode (lead : Option Nat) (digits : List Char) (bytes : Nat)
  | lead (unit : Nat)
  | leadBackslash (unit : Nat)
deriving DecidableEq, Repr

/-- The value of a hexadecimal digit of either case. -/
def hexValue? (c : Char) : Option Nat :=
  if '0' ≤ c ∧ c ≤ '9' then some (c.toNat - '0'.toNat)
  else if 'a' ≤ c ∧ c ≤ 'f' then some (c.toNat - 'a'.toNat + 10)
  else if 'A' ≤ c ∧ c ≤ 'F' then some (c.toNat - 'A'.toNat + 10)
  else none

/-- The number that hexadecimal digits write. -/
def hexNumber? (digits : List Char) : Option Nat :=
  digits.foldlM (fun n c => (hexValue? c).map (n * 16 + ·)) 0

/-- The character that a letter after a backslash stands for. -/
def shortEscape? (c : Char) : Option Char :=
  if c = '"' ∨ c = '\\' ∨ c = '/' then some c
  else if c = 'b' then some '\x08'
  else if c = 'f' then some '\x0c'
  else if c = 'n' then some '\n'
  else if c = 'r' then some '\r'
  else if c = 't' then some '\t'
  else none

/-- A string as far as it has been read: its characters, the latest first, or nothing once a part
of it stood for no character. -/
structure StringPart where
  text : Option (List Char)
  escape : Escape

namespace StringPart

def empty : StringPart :=
  ⟨some [], .plain⟩

/-- A further character. -/
def add (s : StringPart) (c : Char) : StringPart :=
  ⟨s.text.map (c :: ·), .plain⟩

/-- A string with a part that stands for no character. -/
def spoiled : StringPart :=
  ⟨none, .plain⟩

/-- A sixteen-bit unit from an escape, which a leading surrogate may precede. -/
def addUnit (s : StringPart) (lead : Option Nat) (unit : Nat) : StringPart :=
  match lead with
  | none =>
    if 0xD800 ≤ unit ∧ unit < 0xDC00 then { s with escape := .lead unit }
    else if 0xDC00 ≤ unit ∧ unit < 0xE000 then spoiled
    else s.add (Char.ofNat unit)
  | some high =>
    if 0xDC00 ≤ unit ∧ unit < 0xE000 then
      s.add (Char.ofNat (0x10000 + (high - 0xD800) * 0x400 + (unit - 0xDC00)))
    else spoiled

/-- What a symbol does to a string. -/
inductive Push
  | more (s : StringPart)
  | closed (value : Option String)
  | bad

/-- A symbol outside escapes. -/
def pushPlain (s : StringPart) : Symbol → Push
  | .stray => .more spoiled
  | .char c =>
    if c = '"' then .closed (s.text.map fun l => .ofList l.reverse)
    else if c = '\\' then .more { s with escape := .backslash }
    else if c.toNat < 0x20 then .bad
    else .more (s.add c)

/-- A symbol after a backslash. -/
def pushEscape (s : StringPart) : Symbol → Push
  | .stray => .bad
  | .char c =>
    if c = 'u' then .more { s with escape := .unicode none [] 0 }
    else match shortEscape? c with
      | some c => .more (s.add c)
      | none => .bad

/-- The next symbol. The four bytes after `\u` are taken whatever they are and judged together. -/
def push (s : StringPart) (c : Symbol) : Push :=
  match s.escape with
  | .plain => s.pushPlain c
  | .backslash => s.pushEscape c
  | .lead unit =>
    if c = .char '\\' then .more { s with escape := .leadBackslash unit } else spoiled.pushPlain c
  | .leadBackslash unit =>
    if c = .char 'u' then .more { s with escape := .unicode (some unit) [] 0 }
    else spoiled.pushEscape c
  | .unicode lead digits bytes =>
    let (digits, bytes) :=
      match c with
      | .char c => (c :: digits, bytes + c.utf8Size)
      | .stray => ('\x00' :: digits, bytes + 1)
    if bytes < 4 then .more { s with escape := .unicode lead digits bytes }
    else match hexNumber? digits.reverse with
      | some unit => .more (s.addUnit lead unit)
      | none => .bad

/-- The token of a string that the text leaves open. -/
def token (s : StringPart) : Token :=
  .broken true (if s.text.isSome then .endedEarly else .malformed)

end StringPart

/-! ### The automaton -/

/-- What the text is in the middle of. -/
inductive Mode
  | between
  | word (rest : List Char) (token : Token)
  | number (n : Numeral)
  | string (s : StringPart)
  | failed

/-- The tokens so far, the latest first, and what the text is in the middle of. -/
structure Scan where
  tokens : List Token
  mode : Mode

namespace Scan

def start : Scan :=
  ⟨[], .between⟩

/-- A complete token. -/
def emit (s : Scan) (t : Token) : Scan :=
  ⟨t :: s.tokens, .between⟩

/-- The rest of the text is of no account. -/
def fail (s : Scan) (inString : Bool) : Scan :=
  ⟨.broken inString .malformed :: s.tokens, .failed⟩

/-- A symbol between tokens. -/
def pushBetween (s : Scan) : Symbol → Scan
  | .stray => s.fail false
  | .char c =>
    if c = ' ' ∨ c = '\n' ∨ c = '\r' ∨ c = '\t' then { s with mode := .between }
    else if c = '[' then s.emit .openArray
    else if c = ']' then s.emit .closeArray
    else if c = '\x7b' then s.emit .openObject
    else if c = '\x7d' then s.emit .closeObject
    else if c = ',' then s.emit .comma
    else if c = ':' then s.emit .colon
    else if c = '"' then { s with mode := .string .empty }
    else if c = 'n' then { s with mode := .word ['u', 'l', 'l'] .null }
    else if c = 't' then { s with mode := .word ['r', 'u', 'e'] (.bool true) }
    else if c = 'f' then { s with mode := .word ['a', 'l', 's', 'e'] (.bool false) }
    else match Numeral.start? c with
      | some n => { s with mode := .number n }
      | none => s.fail false

/-- The next symbol of the text. -/
def push (s : Scan) (c : Symbol) : Scan :=
  match s.mode with
  | .between => s.pushBetween c
  | .word rest token =>
    match rest with
    | [] => s.fail false
    | letter :: rest =>
      if c ≠ .char letter then s.fail false
      else if rest.isEmpty then s.emit token
      else { s with mode := .word rest token }
  | .number n =>
    match c with
    | .stray => s.fail false
    | .char c =>
      match n.push c with
      | .more n => { s with mode := .number n }
      | .over => (s.emit n.token).pushBetween (.char c)
      | .bad => s.fail false
  | .string part =>
    match part.push c with
    | .more part => { s with mode := .string part }
    | .closed value => s.emit (.string value)
    | .bad => s.fail true
  | .failed => s

/-- The tokens of a text that ends here. -/
def finish (s : Scan) : List Token :=
  match s.mode with
  | .between | .failed => s.tokens.reverse
  | .word _ _ => (.broken false .endedEarly :: s.tokens).reverse
  | .number n => (n.token :: s.tokens).reverse
  | .string part => (part.token :: s.tokens).reverse

end Scan

/-- The tokens of a text. -/
def scan (text : Text) : List Token :=
  (text.foldl Scan.push .start).finish

end CampusQuery.Json
