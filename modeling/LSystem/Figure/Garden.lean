import LSystem.Figure.Basic

namespace LSystem

/-- How a figure is asked for its expansion: one of its own, or one to share, if it has none. -/
inductive Request where
  | own | shared
deriving DecidableEq

def Figure.answer (f : Figure) (request : Request) (store : Store) (supply : Supply) :
    Expansion × Figure × Store × Supply :=
  match request with
  | .own =>
    let (e, f, supply) := f.expand supply
    (e, f, store, supply)
  | .shared => f.expandFrom store supply

/-- Figures that share a store. A figure is known by its number, which it keeps. -/
structure Garden where
  figures : List Figure
  store : Store
  supply : Supply

namespace Garden

/-- All that can happen in a garden. What is done to the store may be done by others. -/
inductive Event where
  | plant (species : Species) (origin : Point) (heading step : Float32) (colour : Rgb)
      (depth : Nat)
  | copy (i : Nat)
  | setDepth (i depth : Nat)
  | setSpecies (i : Nat) (species : Species)
  | restyle (i : Nat) (origin : Point) (heading step : Float32) (colour : Rgb)
  | ask (i : Nat) (request : Request)
  | fetch (k : Key)
  | clearStore

def bare (rewriter : Rewriter) : Garden := ⟨[], .empty rewriter, ⟨0⟩⟩

def change (g : Garden) (i : Nat) (f : Figure → Figure) : Garden :=
  { g with figures := g.figures.modify i f }

/-- The expansion that a figure gives, which it keeps from then on. -/
def ask (g : Garden) (i : Nat) (request : Request) : Option (Expansion × Garden) :=
  match g.figures[i]? with
  | some f =>
    let (e, f, store, supply) := f.answer request g.store g.supply
    some (e, ⟨g.figures.set i f, store, supply⟩)
  | none => none

def perform (g : Garden) : Event → Garden
  | .plant species origin heading step colour depth =>
    let f := { species, origin, heading, step, colour, depth, expansion? := none }
    { g with figures := g.figures ++ [f] }
  | .copy i => { g with figures := g.figures ++ g.figures[i]?.toList }
  | .setDepth i depth => g.change i (·.setDepth depth)
  | .setSpecies i species => g.change i (·.setSpecies species)
  | .restyle i origin heading step colour =>
    g.change i ({ · with origin, heading, step, colour })
  | .ask i request => ((g.ask i request).map Prod.snd).getD g
  | .fetch k =>
    let (_, store, supply) := g.store.expand k g.supply
    { g with store, supply }
  | .clearStore => { g with store := g.store.clear }

def run (g : Garden) (history : List Event) : Garden := history.foldl perform g

end Garden
end LSystem
