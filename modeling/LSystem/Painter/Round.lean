import LSystem.Painter.Basic

namespace LSystem

/-- A pass that goes on from figure to figure; one buffer takes the segments of each in turn. -/
structure Round where
  figures : List Figure
  picture : Picture
  report : Report
  buffer : Array Segment
  supply : Supply

namespace Painter

variable {m : Type → Type} [Monad m]

/-- The segments of a figure take the place of all that the buffer held. A walk that faults leaves
the buffer empty. -/
def trace (p : Painter) (index : Nat) (f : Figure) (w : Word) (buffer : Array Segment) :
    Option Failure × Array Segment :=
  let start := { Walk.start f.gait (p.source index) with segments := buffer.shrink 0 }
  match p.turtle.follow f.gait start w with
  | (done, none) => (none, done.segments)
  | (done, some fault) => (some ⟨index, f.species.name, fault⟩, done.segments.shrink 0)

/-- A figure is expanded only when its turn comes, and drawn only after its whole walk. -/
def paintNext (p : Painter) (draw : Picture → Segment → m Picture) (index : Nat) (f : Figure)
    (r : Round) : m Round :=
  let (e, f, supply) := f.expand r.supply
  match p.trace index f e.word r.buffer with
  | (none, buffer) => do
    let picture ← buffer.foldlM draw r.picture
    return {
      figures := r.figures ++ [f]
      picture
      report := { r.report with
        figures := r.report.figures + 1
        segments := r.report.segments + buffer.size }
      buffer, supply }
  | (some failure, buffer) =>
    return {
      figures := r.figures ++ [f]
      picture := r.picture
      report := { r.report with failures := r.report.failures ++ [failure] }
      buffer, supply }

def paintFrom (p : Painter) (draw : Picture → Segment → m Picture) :
    Nat → List Figure → Round → m Round
  | _, [], r => return r
  | index, f :: fs, r => do p.paintFrom draw (index + 1) fs (← p.paintNext draw index f r)

end Painter
end LSystem
