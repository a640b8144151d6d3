import LSystem.Figure.Basic
import LSystem.Painter.Report
import LSystem.Picture.Writes

namespace LSystem

/-- Draws figures with a number of workers; the seed decides the jitter of every figure. -/
structure Painter where
  workers : Nat
  turtle : Turtle
  seed : UInt64
deriving DecidableEq

/-- What one drawing of figures leaves. -/
structure Pass where
  figures : List Figure
  picture : Picture
  report : Report
  supply : Supply

namespace Painter

def ofWorkers (workers : Nat) (turtle : Turtle) : Painter := ⟨max workers 1, turtle, 0⟩

def usual : Painter := ofWorkers 1 (.usual .usual)

def setWorkers (p : Painter) (workers : Nat) : Painter := { p with workers := max workers 1 }

/-- Each figure has a source of its own, which its index picks. -/
def source (p : Painter) (index : Nat) : Option Generator :=
  if p.turtle.settings.jitter then some (.ofSeed (p.seed ^^^ UInt64.ofNat index)) else none

def outcome (p : Painter) (index : Nat) (f : Figure) (w : Word) :
    Except Failure (Array Segment) :=
  match p.turtle.walk f.gait (p.source index) w with
  | (walk, none) => .ok walk.segments
  | (_, some fault) => .error ⟨index, f.species.name, fault⟩

/-- The outcomes of neighbouring figures, the first of which has the index `first`. -/
def outcomes (p : Painter) (first : Nat) (fs : List (Figure × Word)) :
    List (Except Failure (Array Segment)) :=
  (fs.zipIdx first).map (fun ((f, w), index) => p.outcome index f w)

/-- Figures that have no expansion get one of their own. -/
def expandAll : List Figure → Supply → List (Figure × Word) × Supply
  | [], supply => ([], supply)
  | f :: fs, supply =>
    let (e, f, supply) := f.expand supply
    let (rest, supply) := expandAll fs supply
    ((f, e.word) :: rest, supply)

def drawOutcome (draw : Picture → Segment → Picture) (picture : Picture) :
    Except Failure (Array Segment) → Picture
  | .ok segments => segments.foldl draw picture
  | .error _ => picture

/-- The same for drawing that may stop. -/
def drawOutcomeM {m : Type → Type} [Monad m] (draw : Picture → Segment → m Picture)
    (picture : Picture) : Except Failure (Array Segment) → m Picture
  | .ok segments => segments.foldlM draw picture
  | .error _ => pure picture

/-- No more groups than figures, and never none. -/
def groupCount (p : Painter) (size : Nat) : Nat := max (min p.workers size) 1

def groupLength (p : Painter) (size : Nat) : Nat :=
  (size + p.groupCount size - 1) / p.groupCount size

/-- Neighbouring figures for each worker, with the index of the first. -/
def groups (p : Painter) (fs : List (Figure × Word)) : List (Nat × List (Figure × Word)) :=
  let length := p.groupLength fs.length
  (List.range ((fs.length + length - 1) / length)).map
    (fun i => (i * length, (fs.drop (i * length)).take length))

/-- Every worker draws its own group over a shared picture, and the reports are joined in order. -/
def paint (p : Painter) (figures : List Figure) (picture : Picture) (supply : Supply) : Pass :=
  let (drawn, supply) := expandAll figures supply
  let outcomes := (p.groups drawn).map (fun (first, group) => p.outcomes first group)
  { figures := drawn.map Prod.fst
    picture := outcomes.foldl (fun p os => os.foldl (drawOutcome Picture.drawShared) p) picture
    report := outcomes.foldl (fun r os => r.append (.ofOutcomes os)) .empty
    supply }

/-- One figure after the other, so that later ones may blend with earlier ones. -/
def paintInOrder (p : Painter) (mode : Mode) (figures : List Figure) (picture : Picture)
    (supply : Supply) : Pass :=
  let (drawn, supply) := expandAll figures supply
  let outcomes := p.outcomes 0 drawn
  { figures := drawn.map Prod.fst
    picture := outcomes.foldl (drawOutcome (Picture.draw mode)) picture
    report := .ofOutcomes outcomes
    supply }

/-- A pass that stops when the drawing of a worker does. -/
def paint? (p : Painter) (figures : List Figure) (picture : Picture) (supply : Supply) :
    Option Pass := do
  let (drawn, supply) := expandAll figures supply
  let outcomes := (p.groups drawn).map (fun (first, group) => p.outcomes first group)
  let picture ← outcomes.foldlM (fun p os => os.foldlM (drawOutcomeM Picture.drawShared?) p) picture
  return {
    figures := drawn.map Prod.fst
    picture
    report := outcomes.foldl (fun r os => r.append (.ofOutcomes os)) .empty
    supply }

def paintInOrder? (p : Painter) (mode : Mode) (figures : List Figure) (picture : Picture)
    (supply : Supply) : Option Pass := do
  let (drawn, supply) := expandAll figures supply
  let outcomes := p.outcomes 0 drawn
  let picture ← outcomes.foldlM (drawOutcomeM (Picture.draw? mode)) picture
  return { figures := drawn.map Prod.fst, picture, report := .ofOutcomes outcomes, supply }

/-- Expansions are taken from the store ahead of a pass, so that equal figures share them. -/
def prepare : List Figure → Store → Supply → List Figure × Store × Supply
  | [], store, supply => ([], store, supply)
  | f :: fs, store, supply =>
    let (_, f, store, supply) := f.expandFrom store supply
    let (rest, store, supply) := prepare fs store supply
    (f :: rest, store, supply)

end Painter
end LSystem
