import LSystem.Picture.Basic

namespace LSystem

/-- One channel of one pixel takes a value; what it held before does not matter. -/
structure Write where
  cell : Nat
  value : Float32
deriving DecidableEq

namespace Write

def pixel (e : Extent) (c : Rgba) (place : Pixel) : List Write :=
  let cell := e.cell place
  [⟨cell, c.red⟩, ⟨cell + 1, c.green⟩, ⟨cell + 2, c.blue⟩, ⟨cell + 3, c.alpha⟩]

/-- The writes of a segment that overwrites, in the order of its line. -/
def segment (e : Extent) (s : Segment) : List Write :=
  (e.line s).flatMap (pixel e s.colour.solid)

end Write

namespace Picture

def write (p : Picture) (w : Write) : Picture := p.setSample w.cell w.value

def writeAll (p : Picture) (ws : List Write) : Picture := ws.foldl write p

/-- Drawing that shares the picture with other writers. -/
def drawShared (p : Picture) (s : Segment) : Picture := p.writeAll (Write.segment p.extent s)

/-- A shared writer, too, needs all four samples of a pixel before it writes one. -/
def writePixel? (colour : Rgb) (p : Picture) (place : Pixel) : Option Picture :=
  if p.extent.cell place + 4 ≤ p.samples.size then
    some (p.writeAll (Write.pixel p.extent colour.solid place))
  else none

def drawShared? (p : Picture) (s : Segment) : Option Picture :=
  (p.extent.line s).foldlM (writePixel? s.colour) p

theorem writeAll_append (p : Picture) (us vs : List Write) :
    p.writeAll (us ++ vs) = (p.writeAll us).writeAll vs := by
  simp [writeAll, List.foldl_append]

@[simp] theorem extent_write (p : Picture) (w : Write) : (p.write w).extent = p.extent := rfl

@[simp] theorem extent_writeAll (p : Picture) (ws : List Write) :
    (p.writeAll ws).extent = p.extent := by
  induction ws generalizing p with
  | nil => rfl
  | cons w ws ih => exact ih (p.write w)

end Picture
end LSystem
