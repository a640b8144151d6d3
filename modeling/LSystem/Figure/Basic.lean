import LSystem.Expansion.Store
import LSystem.Species
import LSystem.Turtle.Walk

namespace LSystem

/-- A species drawn at one place, with the expansion that it keeps once it has one. -/
structure Figure where
  species : Species
  origin : Point
  heading : Float32
  step : Float32
  colour : Rgb
  depth : Nat
  expansion? : Option Expansion

namespace Figure

def key (f : Figure) : Key := ⟨f.species.system, f.depth⟩

def isExpanded (f : Figure) : Bool := f.expansion?.isSome

/-- Another depth needs another expansion. -/
def setDepth (f : Figure) (depth : Nat) : Figure :=
  if depth = f.depth then f else { f with depth, expansion? := none }

/-- The expansion depends on the system alone, so another name or turn keeps it. -/
def setSpecies (f : Figure) (species : Species) : Figure :=
  if species.system = f.species.system then { f with species }
  else { f with species, expansion? := none }

/-- An expansion of the figure's own is derived alone and not shared. -/
def expand (f : Figure) (supply : Supply) : Expansion × Figure × Supply :=
  match f.expansion? with
  | some e => (e, f, supply)
  | none =>
    let (e, supply) := supply.mint (Rewriter.alone.expand f.species.system f.depth)
    (e, { f with expansion? := some e }, supply)

/-- A figure without an expansion takes the one that the store holds. -/
def expandFrom (f : Figure) (store : Store) (supply : Supply) :
    Expansion × Figure × Store × Supply :=
  match f.expansion? with
  | some e => (e, f, store, supply)
  | none =>
    let (e, store, supply) := store.expand f.key supply
    (e, { f with expansion? := some e }, store, supply)

def gait (f : Figure) : Gait where
  start := ⟨f.origin, f.heading⟩
  step := f.step
  turn := f.species.turn
  colour := f.colour

end Figure
end LSystem
