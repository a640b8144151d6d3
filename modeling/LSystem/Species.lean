import LSystem.Angle
import LSystem.System

namespace LSystem

/-- A family of drawings: its system, and the angle in radians that one turn takes. -/
structure Species where
  name : String
  system : System
  turn : Float32

namespace Species

/-- Turns are compared as numbers, so one that is not a number has no equal. -/
def same (a b : Species) : Bool :=
  a.name == b.name && a.system == b.system && Float32.beq a.turn b.turn

instance : BEq Species := ⟨same⟩

def read (name start : String) (rules : List (Char × String)) (turn : Float32) :
    Except ForeignSymbol Species :=
  match System.read start rules with
  | .error e => .error e
  | .ok system => .ok ⟨name, system, turn⟩

def withTurn (s : Species) (turn : Float32) : Species := { s with turn }

def ofText (name start : String) (rules : List (Char × String)) (turn : Float32) : Species where
  name := name
  system := {
    start := Word.ofText start
    rules := rules.foldl (fun t (head, body) => t.insert (Symbol.ofChar head) (Word.ofText body))
      .empty }
  turn := turn

def koch : Species := ofText "koch_curve" "F" [('F', "F+F-F-F+F")] quarterTurn

def fern : Species :=
  ofText "fern" "X" [('X', "F-[[X]+X]+F[+FX]-X"), ('F', "FF")] (Float32.ofBits 0x3edf3b64)

def dragon : Species := ofText "dragon_curve" "FX" [('X', "X+YF+"), ('Y', "-FX-Y")] quarterTurn

def sierpinski : Species :=
  ofText "sierpinski_triangle" "F-G-G" [('F', "F-G+F+G-F"), ('G', "GG")] thirdTurn

end Species
end LSystem
