import LSystem.Rules
import LSystem.Text.Quoted

namespace LSystem

/-- What decides how a word grows: where it starts and how each symbol is replaced. -/
structure System where
  start : Word
  rules : Rules
deriving DecidableEq

/-- Where a symbol stands in the text of a system. -/
inductive Place where
  | start | head | body
deriving DecidableEq

def Place.text : Place → String
  | .start => "axiom"
  | .head => "rule head"
  | .body => "rule body"

/-- A character outside ASCII has no symbol. -/
structure ForeignSymbol where
  place : Place
  found : Char
deriving DecidableEq

def ForeignSymbol.message (e : ForeignSymbol) : String :=
  "symbol " ++ Text.quoted e.found ++ " in " ++ e.place.text ++
    " is not a single-byte ASCII symbol"

def Foreign (c : Char) : Prop := 128 ≤ c.toNat

instance (c : Char) : Decidable (Foreign c) := inferInstanceAs (Decidable (128 ≤ c.toNat))

def Word.read (place : Place) (text : String) : Except ForeignSymbol Word :=
  match text.toList.find? (Foreign ·) with
  | some found => .error ⟨place, found⟩
  | none => .ok (Word.ofText text)

/-- The first foreign character ends the reading; the last body of a head counts. -/
def Rules.read (known : Rules) : List (Char × String) → Except ForeignSymbol Rules
  | [] => .ok known
  | (head, text) :: rest =>
    if Foreign head then .error ⟨.head, head⟩
    else match Word.read .body text with
      | .error e => .error e
      | .ok body => Rules.read (known.insert (Symbol.ofChar head) body) rest

def System.read (start : String) (rules : List (Char × String)) : Except ForeignSymbol System :=
  match Word.read .start start with
  | .error e => .error e
  | .ok word =>
    match Rules.read .empty rules with
    | .error e => .error e
    | .ok table => .ok ⟨word, table⟩

end LSystem
