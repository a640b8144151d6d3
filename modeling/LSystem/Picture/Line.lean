namespace LSystem

structure Pixel where
  x : Nat
  y : Nat
deriving DecidableEq

/-- The 64-bit pattern of a number, read with a sign. -/
def signed (n : Nat) : Int := (n : Int).bmod UInt64.size

/-- The 64-bit pattern of a signed number, read without one. -/
def unsigned (i : Int) : Nat := (i % UInt64.size).toNat

/-- A walk along the pixels nearest to a line. The error weighs the two axes against each other;
a tie moves along both. -/
structure LineWalk where
  x : Int
  y : Int
  endX : Int
  endY : Int
  spanX : Int
  spanY : Int
  stepX : Int
  stepY : Int
  error : Int
  finished : Bool
deriving DecidableEq

namespace LineWalk

def between (start stop : Pixel) : LineWalk :=
  let x := signed start.x
  let y := signed start.y
  let endX := signed stop.x
  let endY := signed stop.y
  let spanX := ((endX - x).natAbs : Int)
  let spanY := ((endY - y).natAbs : Int)
  { x, y, endX, endY, spanX, spanY
    stepX := if x < endX then 1 else -1
    stepY := if y < endY then 1 else -1
    error := spanX - spanY
    finished := false }

def pixel (w : LineWalk) : Pixel := ⟨unsigned w.x, unsigned w.y⟩

def alongX (w : LineWalk) : LineWalk :=
  { w with error := w.error - w.spanY, x := w.x + w.stepX }

def alongY (w : LineWalk) : LineWalk :=
  { w with error := w.error + w.spanX, y := w.y + w.stepY }

/-- Whether to move along an axis is decided by the error before any move. -/
def step (w : LineWalk) : LineWalk :=
  let moved := if -w.spanY ≤ 2 * w.error then w.alongX else w
  if 2 * w.error ≤ w.spanX then moved.alongY else moved

/-- The next pixel and the walk after it; the end of the line comes last. -/
def next? (w : LineWalk) : Option (Pixel × LineWalk) :=
  if w.finished then none
  else if w.x = w.endX ∧ w.y = w.endY then some (w.pixel, { w with finished := true })
  else some (w.pixel, w.step)

/-- At most `n` pixels of a walk. -/
def take : Nat → LineWalk → List Pixel
  | 0, _ => []
  | n + 1, w =>
    match w.next? with
    | none => []
    | some (p, rest) => p :: rest.take n

/-- The walk after at most `n` pixels. -/
def drop : Nat → LineWalk → LineWalk
  | 0, w => w
  | n + 1, w =>
    match w.next? with
    | none => w
    | some (_, rest) => rest.drop n

end LineWalk

/-- Every step of the walk moves along the longer axis, so its span bounds the steps. -/
def line (start stop : Pixel) : List Pixel :=
  let walk := LineWalk.between start stop
  walk.take ((max walk.spanX walk.spanY).toNat + 1)

end LSystem
