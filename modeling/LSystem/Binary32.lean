namespace LSystem.Binary32

def exponent (x : Float32) : Nat := (x.toBits.toNat >>> 23) % 256

def fraction (x : Float32) : Nat := x.toBits.toNat % 0x800000

def negative (x : Float32) : Bool := 0x80000000 ≤ x.toBits.toNat

/-- How many of the smallest magnitude `2⁻¹⁴⁹` make up the magnitude of a number. -/
def units (x : Float32) : Nat :=
  if exponent x = 0 then fraction x else (0x800000 + fraction x) <<< (exponent x - 1)

def wholeUnit : Nat := 1 <<< 149

def halfUnit : Nat := 1 <<< 148

/-- The whole number nearest to a magnitude; halves go up, and infinity counts as `2¹²⁸`. -/
def nearestWhole (x : Float32) : Nat := (units x + halfUnit) / wholeUnit

/-- A quotient by a power of two, rounded to nearest; ties go to the even neighbour. -/
def roundShift (n shift : Nat) : Nat :=
  let unit := 1 <<< shift
  let quotient := n / unit
  let twice := 2 * (n % unit)
  if unit < twice ∨ unit = twice ∧ quotient % 2 = 1 then quotient + 1 else quotient

/-- The value that a whole number has in binary32, where 24 bits are significant. -/
def nearestTo (n : Nat) : Nat :=
  if n < 0x1000000 then n
  else roundShift n (n.log2 - 23) <<< (n.log2 - 23)

/-- The binary32 number with the value of `nearestTo n`, for `n` below `2⁶⁴`. -/
def ofNat (n : Nat) : Float32 := (UInt64.ofNat n).toFloat32

theorem nearestTo_of_lt {n : Nat} (h : n < 0x1000000) : nearestTo n = n := if_pos h

end LSystem.Binary32
