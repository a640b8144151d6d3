import LSystem.Json.Number

namespace LSystem.Json

inductive Token where
  | openArray | closeArray | openObject | closeObject | comma | colon
  | null | bool (b : Bool) | number (n : Number) | text (t : Option String)
deriving DecidableEq

/-- Joins each pair of surrogates to one character; a surrogate alone has none. -/
def joinUnits : List Nat → Option (List Char)
  | [] => some []
  | [u] => if 0xd800 ≤ u ∧ u < 0xe000 then none else some [Char.ofNat u]
  | u :: v :: rest =>
    if 0xd800 ≤ u ∧ u < 0xdc00 then
      if 0xdc00 ≤ v ∧ v < 0xe000 then
        (joinUnits rest).map (Char.ofNat (0x10000 + (u - 0xd800) * 0x400 + (v - 0xdc00)) :: ·)
      else none
    else if 0xdc00 ≤ u ∧ u < 0xe000 then none
    else (joinUnits (v :: rest)).map (Char.ofNat u :: ·)

/-- What the characters so far have begun; units, digits and letters are the last ones first. -/
inductive Scan where
  | between
  | text (units : List Nat)
  | escape (units : List Nat)
  | hex (units : List Nat) (left value : Nat)
  | number (chars : List Char)
  | word (chars : List Char)

namespace Scan

def isBlank (c : Char) : Bool := c == ' ' || c == '\t' || c == '\n' || c == '\r'

def isNumeric (c : Char) : Bool :=
  ('0' ≤ c && c ≤ '9') || c == '-' || c == '+' || c == '.' || c == 'e' || c == 'E'

def hexDigit? (c : Char) : Option Nat :=
  if '0' ≤ c ∧ c ≤ '9' then some (c.toNat - '0'.toNat)
  else if 'a' ≤ c ∧ c ≤ 'f' then some (c.toNat - 'a'.toNat + 10)
  else if 'A' ≤ c ∧ c ≤ 'F' then some (c.toNat - 'A'.toNat + 10)
  else none

/-- The character that follows a backslash, as a unit. -/
def escape? : Char → Option Nat
  | '"' => some 0x22
  | '\x5c' => some 0x5c
  | '/' => some 0x2f
  | 'b' => some 8
  | 'f' => some 12
  | 'n' => some 10
  | 'r' => some 13
  | 't' => some 9
  | _ => none

def word? (chars : List Char) : Option Token :=
  if chars = ['n', 'u', 'l', 'l'] then some .null
  else if chars = ['t', 'r', 'u', 'e'] then some (.bool true)
  else if chars = ['f', 'a', 'l', 's', 'e'] then some (.bool false)
  else none

def textToken (units : List Nat) : Token := .text ((joinUnits units.reverse).map String.ofList)

/-- A character that begins a token or is one. -/
def start (done : List Token) (c : Char) : Option (Scan × List Token) :=
  if isBlank c then some (.between, done)
  else if c = '"' then some (.text [], done)
  else if c = '-' ∨ '0' ≤ c ∧ c ≤ '9' then some (.number [c], done)
  else if 'a' ≤ c ∧ c ≤ 'z' then some (.word [c], done)
  else if c = '[' then some (.between, .openArray :: done)
  else if c = ']' then some (.between, .closeArray :: done)
  else if c = '\x7b' then some (.between, .openObject :: done)
  else if c = '\x7d' then some (.between, .closeObject :: done)
  else if c = ',' then some (.between, .comma :: done)
  else if c = ':' then some (.between, .colon :: done)
  else none

/-- Numbers and words end with the character after them. -/
def finish (done : List Token) : Scan → Option (List Token)
  | .between => some done
  | .number chars => (Number.ofChars? chars.reverse).map (.number · :: done)
  | .word chars => (word? chars.reverse).map (· :: done)
  | _ => none

def next (done : List Token) (scan : Scan) (c : Char) : Option (Scan × List Token) :=
  match scan with
  | .between => start done c
  | .text units =>
    if c = '"' then some (.between, textToken units :: done)
    else if c = '\x5c' then some (.escape units, done)
    else if c.toNat < 0x20 then none
    else some (.text (c.toNat :: units), done)
  | .escape units =>
    if c = 'u' then some (.hex units 4 0, done)
    else (escape? c).map (fun u => (.text (u :: units), done))
  | .hex units left value =>
    (hexDigit? c).map (fun d =>
      if left ≤ 1 then (.text ((16 * value + d) :: units), done)
      else (.hex units (left - 1) (16 * value + d), done))
  | .number chars =>
    if isNumeric c then some (.number (c :: chars), done)
    else (finish done (.number chars)).bind (start · c)
  | .word chars =>
    if 'a' ≤ c ∧ c ≤ 'z' then some (.word (c :: chars), done)
    else (finish done (.word chars)).bind (start · c)

/-- The tokens of a text; `done` holds those before it, the last one first. -/
def tokens (done : List Token) (scan : Scan) : List Char → Option (List Token)
  | [] => (finish done scan).map List.reverse
  | c :: rest =>
    match next done scan c with
    | none => none
    | some (scan, done) => tokens done scan rest

end Scan

def tokens (s : List Char) : Option (List Token) := Scan.tokens [] .between s

end LSystem.Json
