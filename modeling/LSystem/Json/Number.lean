namespace LSystem.Json

/-- A number as it is written; the digits keep their order. -/
structure Number where
  negative : Bool
  whole : List Nat
  fraction : List Nat
  /-- Whether a point or an exponent was written. -/
  fractional : Bool
  exponent : Int
deriving DecidableEq

namespace Number

def digit? (c : Char) : Option Nat :=
  if '0' ≤ c ∧ c ≤ '9' then some (c.toNat - '0'.toNat) else none

/-- The digits at the front, and what follows them. -/
def digits : List Char → List Nat × List Char
  | [] => ([], [])
  | c :: rest =>
    match digit? c with
    | none => ([], c :: rest)
    | some d => (d :: (digits rest).1, (digits rest).2)

def valueOf (ds : List Nat) : Nat := ds.foldl (fun n d => 10 * n + d) 0

/-- A whole part is zero or starts with another digit. -/
def whole? (s : List Char) : Option (List Nat × List Char) :=
  match digits s with
  | ([], _) => none
  | (0 :: _ :: _, _) => none
  | (ds, rest) => some (ds, rest)

/-- A point needs a digit after it. -/
def fraction? : List Char → Option (List Nat × List Char)
  | '.' :: rest =>
    match digits rest with
    | ([], _) => none
    | (ds, rest) => some (ds, rest)
  | rest => some ([], rest)

/-- An exponent may have a sign, and it ends the number. -/
def exponent? : List Char → Option Int
  | [] => some 0
  | c :: rest =>
    if c = 'e' ∨ c = 'E' then
      let (sign, rest) : Int × List Char :=
        match rest with
        | '+' :: rest => (1, rest)
        | '-' :: rest => (-1, rest)
        | rest => (1, rest)
      match digits rest with
      | ([], _) => none
      | (ds, []) => some (sign * valueOf ds)
      | _ => none
    else none

def unsigned? (negative : Bool) (s : List Char) : Option Number :=
  match whole? s with
  | none => none
  | some (whole, tail) =>
    match fraction? tail with
    | none => none
    | some (fraction, rest) =>
      match exponent? rest with
      | none => none
      | some exponent => some ⟨negative, whole, fraction, !tail.isEmpty, exponent⟩

def ofChars? : List Char → Option Number
  | '-' :: rest => unsigned? true rest
  | s => unsigned? false s

/-- Digits are taken as long as the number stays below `2⁶⁴`; the others are left. -/
def gather : Nat → List Nat → Nat × List Nat
  | n, [] => (n, [])
  | n, d :: ds => if 10 * n + d < UInt64.size then gather (10 * n + d) ds else (n, d :: ds)

/-- Powers of ten past the largest one of binary64 are divided out in parts. -/
def overPowerOfTen (x : Float) (n : Nat) : Float :=
  if n ≤ 308 then x / Float.ofScientific 1 false n
  else if x == 0 then x
  else overPowerOfTen (x / Float.ofScientific 1 false 308) (n - 308)
termination_by n
decreasing_by omega

/-- The leading digits as a binary64 number, times or over a power of ten. There is no number
past the largest one. -/
def toFloat? (n : Number) : Option Float :=
  let (significand, left) := gather 0 n.whole
  let (significand, unused) := gather significand n.fraction
  let exponent := n.exponent + left.length - (n.fraction.length - unused.length : Nat)
  let x := (UInt64.ofNat significand).toFloat
  let magnitude :=
    if exponent < 0 then some (overPowerOfTen x exponent.natAbs)
    else if 308 < exponent.natAbs then (if x == 0 then some x else none)
    else
      let product := x * Float.ofScientific 1 false exponent.natAbs
      if product.isInf then none else some product
  magnitude.map (fun m => if n.negative then -m else m)

/-- Whole numbers of 64 bits; a number that is written with a point or an exponent is none. -/
def toInt? (n : Number) : Option Int :=
  let magnitude := valueOf n.whole
  if n.fractional then none
  else if n.negative then
    if 0 < magnitude ∧ magnitude ≤ UInt64.size / 2 then some (-magnitude) else none
  else if magnitude < UInt64.size then some magnitude
  else none

/-- Whole numbers are rounded once, all others by way of binary64. -/
def toFloat32? (n : Number) : Option Float32 :=
  match n.toInt? with
  | some i =>
    let magnitude := (UInt64.ofNat i.natAbs).toFloat32
    some (if i < 0 then -magnitude else magnitude)
  | none => n.toFloat?.map Float.toFloat32

end Number
end LSystem.Json
