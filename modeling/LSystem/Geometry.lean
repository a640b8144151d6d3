namespace LSystem

/-- A point or a displacement; the unit square is what a picture shows. -/
structure Point where
  x : Float32
  y : Float32
deriving DecidableEq

namespace Point

def add (p q : Point) : Point := ⟨p.x + q.x, p.y + q.y⟩

def sub (p q : Point) : Point := ⟨p.x - q.x, p.y - q.y⟩

def scale (p : Point) (k : Float32) : Point := ⟨p.x * k, p.y * k⟩

def norm (p : Point) : Float32 := (p.x * p.x + p.y * p.y).sqrt

end Point

structure Rgb where
  red : Float32
  green : Float32
  blue : Float32
deriving DecidableEq

structure Rgba where
  red : Float32
  green : Float32
  blue : Float32
  alpha : Float32
deriving DecidableEq

def Rgb.solid (c : Rgb) : Rgba := ⟨c.red, c.green, c.blue, 1⟩

structure Segment where
  start : Point
  stop : Point
  colour : Rgb
deriving DecidableEq

def Segment.length (s : Segment) : Float32 := (s.start.sub s.stop).norm

/-- Where a turtle is and, counter-clockwise from the first axis, where it looks. -/
structure Pose where
  position : Point
  heading : Float32
deriving DecidableEq

namespace Pose

def direction (p : Pose) : Point := ⟨p.heading.cos, p.heading.sin⟩

def ahead (p : Pose) (step : Float32) : Point := p.position.add (p.direction.scale step)

def advance (p : Pose) (step : Float32) : Pose := { p with position := p.ahead step }

def turn (p : Pose) (angle : Float32) : Pose := { p with heading := p.heading + angle }

end Pose
end LSystem
