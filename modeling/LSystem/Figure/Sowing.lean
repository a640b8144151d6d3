import LSystem.Figure.Basic

namespace LSystem

/-- How figures are sown: how deep each is, and how long it is before its depth shortens it. -/
structure Sowing where
  depth : Nat
  length : Float32
deriving DecidableEq

namespace Sowing

def usual : Sowing := ⟨5, Float32.ofBits 0x3c23d70a⟩

def powerOfTwo (n : Nat) : Float32 :=
  if n < 128 then Float32.ofBits (UInt32.ofNat (n + 127) <<< 23) else Float32.ofBits 0x7f800000

/-- The depth is read as a signed number of 32 bits; a negative power is the inverse of one. -/
def shortening (depth : Nat) : Float32 :=
  let exponent := (depth : Int).bmod UInt32.size
  if exponent < 0 then 1 / powerOfTwo exponent.natAbs else powerOfTwo exponent.natAbs

def step (s : Sowing) : Float32 := s.length / shortening s.depth

/-- A figure takes four numbers: where it stands, then how green and how blue it is. -/
def one (s : Sowing) (species : Species) (g : Generator) : Figure × Generator :=
  let (x, g) := g.draw
  let (y, g) := g.draw
  let (green, g) := g.draw
  let (blue, g) := g.draw
  ({ species
     origin := ⟨x, y⟩
     heading := quarterTurn
     step := s.step
     colour := ⟨1, green, blue * Float32.ofBits 0x3f000000⟩
     depth := s.depth
     expansion? := none }, g)

def sow (s : Sowing) (species : Species) : Nat → Generator → List Figure × Generator
  | 0, g => ([], g)
  | n + 1, g =>
    let (f, g) := s.one species g
    let (fs, g) := s.sow species n g
    (f :: fs, g)

end Sowing
end LSystem
