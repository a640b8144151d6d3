import LSystem.Turtle.Walk

namespace LSystem

/-- A figure whose walk stopped at a fault; nothing of it is drawn. -/
structure Failure where
  index : Nat
  species : String
  fault : Fault
deriving DecidableEq

structure Report where
  figures : Nat
  segments : Nat
  failures : List Failure
deriving DecidableEq

namespace Report

def empty : Report := ⟨0, 0, []⟩

def isClean (r : Report) : Bool := r.failures.isEmpty

def append (r t : Report) : Report :=
  ⟨r.figures + t.figures, r.segments + t.segments, r.failures ++ t.failures⟩

def ofOutcome : Except Failure (Array Segment) → Report
  | .ok segments => ⟨1, segments.size, []⟩
  | .error failure => ⟨0, 0, [failure]⟩

def ofOutcomes (outcomes : List (Except Failure (Array Segment))) : Report :=
  outcomes.foldl (fun r o => r.append (ofOutcome o)) empty

@[simp] theorem empty_append (r : Report) : empty.append r = r := by
  simp [empty, append]

@[simp] theorem append_empty (r : Report) : r.append empty = r := by
  simp [empty, append]

theorem append_assoc (r s t : Report) : (r.append s).append t = r.append (s.append t) := by
  simp [append, Nat.add_assoc]

end Report
end LSystem
