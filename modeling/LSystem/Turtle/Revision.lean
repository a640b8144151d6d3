import LSystem.Turtle.Walk

namespace LSystem.Turtle

/-- A turtle that ignores every symbol. -/
def mute (settings : WalkSettings) : Turtle := ⟨.empty, settings⟩

/-- All that can be done to the alphabet of a turtle. -/
inductive Revision where
  | assign (s : Symbol) (c : Command)
  | replace (commands : Array Command)
  | addConventional

def revise (t : Turtle) : Revision → Turtle
  | .assign s c => { t with alphabet := t.alphabet.assign s c }
  | .replace commands => { t with alphabet := ⟨commands⟩ }
  | .addConventional => { t with alphabet := t.alphabet.addConventional }

def reviseAll (t : Turtle) (history : List Revision) : Turtle := history.foldl revise t

end LSystem.Turtle
