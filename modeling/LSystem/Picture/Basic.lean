import LSystem.Binary32
import LSystem.Geometry
import LSystem.Picture.Line

namespace LSystem

structure Extent where
  width : Nat
  height : Nat
deriving DecidableEq

namespace Extent

def area (e : Extent) : Nat := e.width * e.height

/-- A side of `size` pixels spans the unit interval from its first pixel to its last. What is no
number goes to the first pixel, and what lies outside goes to the nearer end. -/
def along (size : Nat) (v : Float32) : Nat :=
  let scaled := v * Binary32.ofNat (size - 1)
  if scaled.isNaN || Binary32.negative scaled then 0
  else min (Binary32.nearestWhole scaled) (Binary32.nearestTo (size - 1))

def toPixel (e : Extent) (p : Point) : Pixel := ⟨along e.width p.x, along e.height p.y⟩

def line (e : Extent) (s : Segment) : List Pixel :=
  LSystem.line (e.toPixel s.start) (e.toPixel s.stop)

/-- Pixels are stored row by row, four samples each. -/
def cell (e : Extent) (p : Pixel) : Nat := 4 * (p.y * e.width + p.x)

/-- The samples of a picture are counted in 64 bits. -/
def Valid (e : Extent) : Prop := 0 < e.area ∧ 4 * e.area < UInt64.size

instance (e : Extent) : Decidable e.Valid := inferInstanceAs (Decidable (_ ∧ _))

end Extent

/-- What a segment does to the pixels on its line. -/
inductive Mode where
  | overwrite | blend (alpha : Float32)
deriving DecidableEq

def Mode.apply (mode : Mode) (colour : Rgb) (prior : Rgba) : Rgba :=
  match mode with
  | .overwrite => colour.solid
  | .blend alpha =>
    { red := colour.red * alpha + prior.red * (1 - alpha)
      green := colour.green * alpha + prior.green * (1 - alpha)
      blue := colour.blue * alpha + prior.blue * (1 - alpha)
      alpha := alpha + prior.alpha * (1 - alpha) }

inductive PictureError where
  | invalidExtent (e : Extent)
  | noPicture
deriving DecidableEq

def PictureError.message : PictureError → String
  | .invalidExtent e =>
    "invalid canvas dimensions " ++ toString e.width ++ "x" ++ toString e.height ++
      ": both must be non-zero"
  | .noPicture => "no output image allocated; call alloc_output_image first"

structure Picture where
  extent : Extent
  samples : Array Float32
  size_eq : samples.size = 4 * extent.area

namespace Picture

def blank (e : Extent) : Picture := ⟨e, Array.replicate (4 * e.area) 0, by simp⟩

def create (e : Extent) : Except PictureError Picture :=
  if e.Valid then .ok (blank e) else .error (.invalidExtent e)

/-- A cell that the picture does not have takes nothing; painting stops before it gets there. -/
def setSample (p : Picture) (cell : Nat) (value : Float32) : Picture :=
  { p with samples := p.samples.setIfInBounds cell value, size_eq := by simpa using p.size_eq }

def sample (p : Picture) (cell : Nat) : Float32 := (p.samples[cell]?).getD 0

def get (p : Picture) (place : Pixel) : Rgba :=
  let cell := p.extent.cell place
  ⟨p.sample cell, p.sample (cell + 1), p.sample (cell + 2), p.sample (cell + 3)⟩

def get? (p : Picture) (place : Pixel) : Option Rgba :=
  if place.x < p.extent.width ∧ place.y < p.extent.height then some (p.get place) else none

def set (p : Picture) (place : Pixel) (c : Rgba) : Picture :=
  let cell := p.extent.cell place
  (((p.setSample cell c.red).setSample (cell + 1) c.green).setSample (cell + 2) c.blue).setSample
    (cell + 3) c.alpha

def clear (p : Picture) (c : Rgba) : Picture where
  extent := p.extent
  samples := Array.ofFn (fun i : Fin (4 * p.extent.area) =>
    if i.val % 4 = 0 then c.red else if i.val % 4 = 1 then c.green
    else if i.val % 4 = 2 then c.blue else c.alpha)
  size_eq := by simp

def paintPixel (mode : Mode) (colour : Rgb) (p : Picture) (place : Pixel) : Picture :=
  p.set place (mode.apply colour (p.get place))

def draw (mode : Mode) (p : Picture) (s : Segment) : Picture :=
  (p.extent.line s).foldl (paintPixel mode s.colour) p

/-- All four samples of a pixel have to be there before one of them is touched. -/
def paintPixel? (mode : Mode) (colour : Rgb) (p : Picture) (place : Pixel) : Option Picture :=
  if p.extent.cell place + 4 ≤ p.samples.size then some (p.paintPixel mode colour place) else none

/-- Drawing stops at a pixel that cannot be painted, and then there is no picture. -/
def draw? (mode : Mode) (p : Picture) (s : Segment) : Option Picture :=
  (p.extent.line s).foldlM (paintPixel? mode s.colour) p

@[simp] theorem extent_setSample (p : Picture) (cell : Nat) (value : Float32) :
    (p.setSample cell value).extent = p.extent := rfl

@[simp] theorem extent_set (p : Picture) (place : Pixel) (c : Rgba) :
    (p.set place c).extent = p.extent := rfl

@[simp] theorem extent_clear (p : Picture) (c : Rgba) : (p.clear c).extent = p.extent := rfl

@[simp] theorem extent_draw (mode : Mode) (p : Picture) (s : Segment) :
    (p.draw mode s).extent = p.extent := by
  unfold draw
  generalize p.extent.line s = path
  induction path generalizing p with
  | nil => rfl
  | cons place path ih => exact ih (paintPixel mode s.colour p place)

theorem sample_setSample (p : Picture) (cell other : Nat) (value : Float32) :
    (p.setSample cell value).sample other =
      if other = cell ∧ cell < p.samples.size then value else p.sample other := by
  simp only [sample, setSample, Array.getElem?_setIfInBounds]
  by_cases h : cell = other
  · subst other
    by_cases inside : cell < p.samples.size <;> simp [inside]
  · have h' : ¬ other = cell := fun e => h e.symm
    simp [h, h']

end Picture
end LSystem
