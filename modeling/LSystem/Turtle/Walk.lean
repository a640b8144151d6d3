import LSystem.Angle
import LSystem.Geometry
import LSystem.Random.Generator
import LSystem.Turtle.Alphabet

namespace LSystem

/-- How one drawing is walked: its first pose, the length of a step, the angle of a turn. -/
structure Gait where
  start : Pose
  step : Float32
  turn : Float32
  colour : Rgb
deriving DecidableEq

/-- `maxSaved` bounds the poses saved at one time; jitter scales each turn at random. -/
structure WalkSettings where
  maxSaved : Nat
  jitter : Bool
deriving DecidableEq

def WalkSettings.usual : WalkSettings := ⟨4096, false⟩

structure Turtle where
  alphabet : Alphabet
  settings : WalkSettings
deriving DecidableEq

/-- A walk stops at a symbol that it cannot obey. -/
inductive Fault where
  | nothingSaved (position : Nat)
  | tooManySaved (position limit : Nat)
deriving DecidableEq

def Fault.message : Fault → String
  | .nothingSaved position =>
    "branch stack underflow: pop at symbol " ++ toString position ++ " with no saved state"
  | .tooManySaved position limit =>
    "branch stack overflow: push at symbol " ++ toString position ++ " exceeds depth limit " ++
      toString limit

/-- A walk after its first `read` symbols. -/
structure Walk where
  pose : Pose
  saved : Array Pose
  read : Nat
  source : Option Generator
  segments : Array Segment

/-- What a whole walk draws, and where it leaves the turtle. -/
structure Path where
  segments : Array Segment
  last : Pose
deriving DecidableEq

namespace Walk

def start (gait : Gait) (source : Option Generator) : Walk := ⟨gait.start, #[], 0, source, #[]⟩

end Walk

namespace Turtle

def usual (settings : WalkSettings) : Turtle := ⟨.standard, settings⟩

def count (t : Turtle) (w : Word) : Nat := w.countP (fun s => t.alphabet.command s == .draw)

/-- Why a walk cannot go on with a command. -/
def fault? (t : Turtle) (w : Walk) : Command → Option Fault
  | .push =>
    if t.settings.maxSaved ≤ w.saved.size then some (.tooManySaved w.read t.settings.maxSaved)
    else none
  | .pop => if w.saved.isEmpty then some (.nothingSaved w.read) else none
  | _ => none

/-- The factor of one turn. A walk without jitter takes nothing from its source. -/
def factor (t : Turtle) (source : Option Generator) : Float32 × Option Generator :=
  match source with
  | some g => if t.settings.jitter then (g.draw.1, some g.draw.2) else (1, some g)
  | none => (1, none)

def obey (t : Turtle) (gait : Gait) (w : Walk) : Command → Walk
  | .draw =>
    let next := w.pose.advance gait.step
    { w with
      pose := next
      read := w.read + 1
      segments := w.segments.push ⟨w.pose.position, next.position, gait.colour⟩ }
  | .move => { w with pose := w.pose.advance gait.step, read := w.read + 1 }
  | .turn sign =>
    let (factor, source) := t.factor w.source
    { w with pose := w.pose.turn (sign * gait.turn * factor), read := w.read + 1, source }
  | .around => { w with pose := w.pose.turn halfTurn, read := w.read + 1 }
  | .push => { w with saved := w.saved.push w.pose, read := w.read + 1 }
  | .pop =>
    { w with pose := w.saved.back?.getD w.pose, saved := w.saved.pop, read := w.read + 1 }
  | .ignore => { w with read := w.read + 1 }

/-- A walk ends with its word or at its first fault, and keeps what it drew before. -/
def follow (t : Turtle) (gait : Gait) : Walk → Word → Walk × Option Fault
  | w, [] => (w, none)
  | w, s :: rest =>
    let command := t.alphabet.command s
    match t.fault? w command with
    | some f => (w, some f)
    | none => t.follow gait (t.obey gait w command) rest

/-- The walk over a whole word. -/
def walk (t : Turtle) (gait : Gait) (source : Option Generator) (w : Word) :
    Walk × Option Fault :=
  t.follow gait (.start gait source) w

/-- The segments of a walk together with the pose that it ended in; after a fault there is none. -/
def path (t : Turtle) (gait : Gait) (source : Option Generator) (w : Word) : Except Fault Path :=
  match t.walk gait source w with
  | (done, none) => .ok ⟨done.segments, done.pose⟩
  | (_, some f) => .error f

@[simp] theorem read_obey (t : Turtle) (gait : Gait) (w : Walk) (c : Command) :
    (t.obey gait w c).read = w.read + 1 := by
  cases c <;> rfl

/-- Only draw commands leave segments, one each. -/
theorem size_segments_obey (t : Turtle) (gait : Gait) (w : Walk) (c : Command) :
    (t.obey gait w c).segments.size = w.segments.size + if c = .draw then 1 else 0 := by
  cases c <;> simp [obey]

theorem follow_append (t : Turtle) (gait : Gait) (w : Walk) (u v : Word) :
    t.follow gait w (u ++ v) =
      match t.follow gait w u with
      | (w, none) => t.follow gait w v
      | (w, some f) => (w, some f) := by
  induction u generalizing w with
  | nil => rfl
  | cons s u ih =>
    simp only [List.cons_append, follow]
    split
    · rfl
    · exact ih _

end Turtle
end LSystem
