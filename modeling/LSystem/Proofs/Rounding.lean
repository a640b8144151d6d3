import LSystem.Binary32
import Mathlib

namespace LSystem.Binary32

open Float.Model Float.Model.UnpackedFloat

theorem wholeUnit_eq : wholeUnit = 2 ^ 149 := Nat.one_shiftLeft 149

theorem roundShift_eq (n k : Nat) :
    roundShift n k =
      if 2 ^ k < 2 * (n % 2 ^ k) ∨ 2 ^ k = 2 * (n % 2 ^ k) ∧ n / 2 ^ k % 2 = 1 then n / 2 ^ k + 1
      else n / 2 ^ k := by
  simp only [roundShift, Nat.one_shiftLeft]

theorem nearestTo_of_le {n : Nat} (h : 2 ^ 24 ≤ n) :
    nearestTo n = roundShift n (n.log2 - 23) * 2 ^ (n.log2 - 23) := by
  rw [nearestTo, if_neg (by omega), Nat.shiftLeft_eq]

/-- The two bits below a quotient by `2 ^ k`: whether the remainder reaches a half, and whether it
is neither nothing nor a half. -/
structure Residue (n k : Nat) (em : ExtendedMantissa) : Prop where
  mantissa : em.mantissa = n / 2 ^ k
  roundBit : em.roundBit = true ↔ 2 ^ k ≤ 2 * (n % 2 ^ k)
  stickyBit : em.stickyBit = true ↔ n % 2 ^ k ≠ 0 ∧ 2 * (n % 2 ^ k) ≠ 2 ^ k

theorem Residue.shiftRightOne {n k : Nat} {em : ExtendedMantissa} (h : Residue n k em) :
    Residue n (k + 1) em.shiftRightOne := by
  have split : n % 2 ^ (k + 1) = n % 2 ^ k + 2 ^ k * (n / 2 ^ k % 2) := Nat.mod_pow_succ
  have less : n % 2 ^ k < 2 ^ k := Nat.mod_lt _ (Nat.two_pow_pos k)
  have double : 2 ^ (k + 1) = 2 * 2 ^ k := by rw [Nat.pow_succ, Nat.mul_comm]
  refine ⟨?_, ?_, ?_⟩
  · simp only [ExtendedMantissa.shiftRightOne, h.mantissa]
    rw [Nat.div_div_eq_div_mul, Nat.pow_succ]
  · simp only [ExtendedMantissa.shiftRightOne, h.mantissa, bne_iff_ne]
    rw [split, double]
    rcases Nat.mod_two_eq_zero_or_one (n / 2 ^ k) with odd | odd <;> rw [odd] <;> omega
  · simp only [ExtendedMantissa.shiftRightOne, Bool.or_eq_true, h.roundBit, h.stickyBit]
    rw [split, double]
    rcases Nat.mod_two_eq_zero_or_one (n / 2 ^ k) with odd | odd <;> rw [odd] <;> omega

/-- Shifting bit by bit keeps all that rounding needs. -/
theorem residue_shift (n k : Nat) :
    Residue n k (ExtendedMantissa.ofMantissaAndAccuracy n .exact >>> k) := by
  induction k with
  | zero =>
    change Residue n 0 (ExtendedMantissa.ofMantissaAndAccuracy n .exact)
    refine ⟨?_, ?_, ?_⟩
    · exact (Nat.div_one n).symm
    · simp [ExtendedMantissa.ofMantissaAndAccuracy, Nat.mod_one]
    · simp [ExtendedMantissa.ofMantissaAndAccuracy, Nat.mod_one]
  | succ k ih => exact ih.shiftRightOne

theorem roundedMantissa_shift (n k : Nat) :
    (ExtendedMantissa.ofMantissaAndAccuracy n .exact >>> k).roundedMantissa = roundShift n k := by
  have h := residue_shift n k
  have pos := Nat.two_pow_pos k
  generalize ExtendedMantissa.ofMantissaAndAccuracy n .exact >>> k = em at h ⊢
  obtain ⟨m, r, s⟩ := em
  obtain ⟨mantissa, roundBit, stickyBit⟩ := h
  simp only at mantissa roundBit stickyBit
  subst mantissa
  rw [roundShift_eq, ExtendedMantissa.roundedMantissa]
  cases r <;> cases s <;>
    simp only [Bool.false_eq_true, eq_self, false_iff, true_iff] at roundBit stickyBit <;>
    dsimp only [ExtendedMantissa.accuracy, Accuracy.roundToNearestEven] <;>
    split <;> omega

/-- Nothing is rounded off a multiple. -/
theorem roundShift_mul (m k : Nat) : roundShift (2 ^ k * m) k = m := by
  have quotient : 2 ^ k * m / 2 ^ k = m := Nat.mul_div_cancel_left m (Nat.two_pow_pos k)
  have remainder : 2 ^ k * m % 2 ^ k = 0 := Nat.mul_mod_right (2 ^ k) m
  have pos := Nat.two_pow_pos k
  rw [roundShift_eq, quotient, remainder, if_neg (by omega)]

theorem roundShift_zero (m : Nat) : roundShift m 0 = m := by
  simpa using roundShift_mul m 0

/-- Rounding never doubles a number. -/
theorem nearestTo_le (n : Nat) : nearestTo n ≤ 2 * n := by
  rcases Nat.lt_or_ge n (2 ^ 24) with few | many
  · rw [nearestTo_of_lt few]
    omega
  · have power : 2 ^ (n.log2 - 23) ≤ n :=
      Nat.le_trans (Nat.pow_le_pow_right (by decide) (by omega)) (Nat.log2_self_le (by omega))
    have next : roundShift n (n.log2 - 23) ≤ n / 2 ^ (n.log2 - 23) + 1 := by
      rw [roundShift_eq]
      split <;> omega
    have scaled := Nat.mul_le_mul_right (2 ^ (n.log2 - 23)) next
    have kept := Nat.div_mul_le_self n (2 ^ (n.log2 - 23))
    rw [Nat.succ_mul] at scaled
    rw [nearestTo_of_le many]
    omega

theorem log2_normal {m : Nat} (lower : 2 ^ 23 ≤ m) (upper : m < 2 ^ 24) : m.log2 = 23 :=
  (Nat.log2_eq_iff (by omega)).mpr ⟨lower, upper⟩

theorem target_eq {m : Nat} {e : Int} (log : m.log2 = 23) (least : -149 ≤ e) :
    Format.binary32.targetExponent (totalExponent m e) = e := by
  simp only [Format.targetExponent, totalExponent, log, Format.mantissaBits, Format.minExponent]
  omega

/-- Bits below the target are rounded off; the rounded significand fits. -/
theorem round_within {n k : Nat} {e : Int}
    (target : Format.binary32.targetExponent (totalExponent n e) = e + k)
    (lower : 2 ^ 23 ≤ roundShift n k) (upper : roundShift n k < 2 ^ 24) (least : -149 ≤ e + k) :
    roundWithAccuracy Format.binary32 .positive n e .exact =
      .finite .positive (roundShift n k) (e + k) (by omega) := by
  have again := target_eq (log2_normal lower upper) least
  have amount : (e + k - e).toNat = k := by omega
  have unshifted (em : ExtendedMantissa) : em >>> (0 : Nat) = em := rfl
  have pos : roundShift n k ≠ 0 := by omega
  have still : (e + k - (e + k)).toNat = 0 := by omega
  simp only [roundWithAccuracy, shiftToTargetExponent, shiftToExponent, target, amount,
    roundedMantissa_shift, again, still, unshifted, Int.natCast_zero, Int.add_zero]
  exact dif_neg pos

/-- A significand that rounds up to the next power of two moves the exponent. -/
theorem round_carry {n k : Nat} {e : Int}
    (target : Format.binary32.targetExponent (totalExponent n e) = e + k)
    (carry : roundShift n k = 2 ^ 24) (least : -149 ≤ e + k) :
    roundWithAccuracy Format.binary32 .positive n e .exact =
      .finite .positive (2 ^ 23) (e + k + 1) (by omega) := by
  have amount : (e + k - e).toNat = k := by omega
  have again : Format.binary32.targetExponent (totalExponent (2 ^ 24) (e + k)) = e + k + 1 := by
    simp only [Format.targetExponent, totalExponent, Nat.log2_two_pow, Format.mantissaBits,
      Format.minExponent]
    omega
  have one : (e + k + 1 - (e + k)).toNat = 1 := by omega
  simp only [roundWithAccuracy, shiftToTargetExponent, shiftToExponent, target, amount,
    roundedMantissa_shift, carry, again, one]
  rfl

/-- A positive number with all 24 bits of its significand. -/
def normal (m : Nat) (e : Int) (pos : 0 < m) : Float32 :=
  .ofModel (.pack (.finite .positive m e pos))

/-- The exponents of numbers that are neither subnormal nor too large. -/
structure InRange (m : Nat) (e : Int) : Prop where
  lower : 2 ^ 23 ≤ m
  upper : m < 2 ^ 24
  least : -149 ≤ e
  greatest : e ≤ 104

section Normal

variable {m : Nat} {e : Int} (h : InRange m e) (pos : 0 < m)

include h

theorem pack_normal :
    UnpackedFloat.pack Format.binary32 (.finite .positive m e pos) =
      packComponents Format.binary32 .positive (BitVec.ofNat 8 (e + 150).toNat)
        (BitVec.ofNat 23 m) := by
  have exponent : (e + Format.binary32.exponentBias +
      Format.binary32.mantissaBitsWithoutImplicit).toNat = (e + 150).toNat := by
    change (e + 127 + 23).toNat = _
    omega
  have fits : ¬ 2 ^ Format.binary32.exponentBits ≤ (e + 150).toNat + 1 := by
    change ¬ 256 ≤ _
    have := h.greatest
    omega
  simp only [UnpackedFloat.pack, exponent, if_neg fits, log2_normal h.lower h.upper]
  rfl

theorem toNat_toBits_normal :
    (normal m e pos).toBits.toNat = (e + 149).toNat * 2 ^ 23 + m := by
  have bits : (normal m e pos).toBits =
      .ofBitVec (UnpackedFloat.pack Format.binary32 (.finite .positive m e pos)) := rfl
  rw [bits, pack_normal h]
  obtain ⟨lower, upper, least, greatest⟩ := h
  have exponent : (BitVec.ofNat 8 (e + 150).toNat).toNat = (e + 150).toNat := by
    rw [BitVec.toNat_ofNat, Nat.mod_eq_of_lt (by omega)]
  have fraction : (BitVec.ofNat 23 m).toNat = m - 2 ^ 23 := by
    rw [BitVec.toNat_ofNat]
    omega
  change (0#1 ++ BitVec.ofNat 8 (e + 150).toNat ++ BitVec.ofNat 23 m).toNat = _
  rw [BitVec.toNat_append, BitVec.toNat_append, exponent, fraction,
    ← Nat.shiftLeft_add_eq_or_of_lt (by omega), ← Nat.shiftLeft_add_eq_or_of_lt (by omega)]
  simp only [Nat.shiftLeft_eq, BitVec.toNat_ofNat]
  omega

theorem exponent_normal : exponent (normal m e pos) = (e + 150).toNat := by
  have bits := toNat_toBits_normal h pos
  obtain ⟨lower, upper, least, greatest⟩ := h
  rw [exponent, bits]
  omega

theorem fraction_normal : fraction (normal m e pos) = m - 2 ^ 23 := by
  have bits := toNat_toBits_normal h pos
  obtain ⟨lower, upper, least, greatest⟩ := h
  rw [fraction, bits]
  omega

theorem negative_normal : negative (normal m e pos) = false := by
  have bits := toNat_toBits_normal h pos
  obtain ⟨lower, upper, least, greatest⟩ := h
  rw [negative, bits]
  simp only [decide_eq_false_iff_not]
  omega

theorem units_normal : units (normal m e pos) = m * 2 ^ (e + 149).toNat := by
  have hs : (e + 150).toNat ≠ 0 := by
    have := h.least
    omega
  have hm : 0x800000 + (m - 2 ^ 23) = m := by
    have := h.lower
    omega
  have he : (e + 150).toNat - 1 = (e + 149).toNat := by omega
  rw [units, exponent_normal h, fraction_normal h, if_neg hs, hm, he,
    Nat.shiftLeft_eq]

/-- What was packed is what is unpacked. -/
theorem unpack_normal : (normal m e pos).toModel.unpack = .finite .positive m e pos := by
  have bits : (normal m e pos).toModel.unpack =
      UnpackedFloat.unpack Format.binary32
        (UnpackedFloat.pack Format.binary32 (.finite .positive m e pos)) := rfl
  rw [bits, pack_normal h]
  obtain ⟨lower, upper, least, greatest⟩ := h
  have exponent : (BitVec.ofNat 8 (e + 150).toNat).toNat = (e + 150).toNat := by
    rw [BitVec.toNat_ofNat, Nat.mod_eq_of_lt (by omega)]
  have finite : BitVec.ofNat 8 (e + 150).toNat ≠ -1#8 := by
    intro he
    have := exponent ▸ congrArg BitVec.toNat he
    change (e + 150).toNat = 255 at this
    omega
  have scaled : BitVec.ofNat 8 (e + 150).toNat ≠ 0#8 := by
    intro he
    have := exponent ▸ congrArg BitVec.toNat he
    change (e + 150).toNat = 0 at this
    omega
  have significand : (1#1 ++ BitVec.ofNat 23 m).toNat = m := by
    rw [BitVec.toNat_append, BitVec.toNat_ofNat, ← Nat.shiftLeft_add_eq_or_of_lt (by omega)]
    change 1 <<< 23 + m % 2 ^ 23 = m
    omega
  have unbiased : ((e + 150).toNat : Int) - (Format.binary32.exponentBias + (23 : Nat)) = e := by
    change ((e + 150).toNat : Int) - (127 + 23) = e
    omega
  simp only [UnpackedFloat.unpack, unpackMantissa_packComponents, unpackExponent_packComponents,
    unpackSign_packComponents, exponent]
  rw [if_neg finite, if_neg scaled]
  simp only [significand, unbiased]
  rfl

theorem isNaN_normal : (normal m e pos).isNaN = false := by
  change ((normal m e pos).toModel.unpack).isNaN = false
  rw [unpack_normal h]
  rfl

end Normal

section Scaling

variable {m m' : Nat} {e e' f : Int} (h : InRange m e) (pos : 0 < m) (pos' : 0 < m')

/-- Two to the power `f + 23`, as a normal number. -/
def power (f : Int) : Float32 := normal (2 ^ 23) f (by decide)

theorem inRange_power (least : -149 ≤ f) (greatest : f ≤ 104) : InRange (2 ^ 23) f :=
  ⟨Nat.le_refl _, by decide, least, greatest⟩

include h

/-- The product of normal numbers is rounded once. -/
theorem mul_normal (h' : InRange m' e') : normal m e pos * normal m' e' pos' =
    .ofModel (.pack (roundWithAccuracy Format.binary32 .positive (m * m') (e + e') .exact)) := by
  have opened : normal m e pos * normal m' e' pos' = .ofModel (.pack (UnpackedFloat.mul
      Format.binary32 (normal m e pos).toModel.unpack (normal m' e' pos').toModel.unpack)) := rfl
  rw [opened, unpack_normal h, unpack_normal h']
  rfl

/-- The product with a power of two is exact. -/
theorem mul_power (range : InRange (2 ^ 23) f) (least : -149 ≤ e + f + 23) :
    normal m e pos * power f = normal m (e + f + 23) pos := by
  rw [power, mul_normal h pos _ range]
  obtain ⟨lower, upper, -, -⟩ := h
  have log : (m * 2 ^ 23).log2 = 46 :=
    (Nat.log2_eq_iff (by omega)).mpr ⟨by omega, by omega⟩
  have target : Format.binary32.targetExponent (totalExponent (m * 2 ^ 23) (e + f)) =
      e + f + (23 : Nat) := by
    simp only [Format.targetExponent, totalExponent, log, Format.mantissaBits, Format.minExponent]
    omega
  have exact : roundShift (m * 2 ^ 23) 23 = m := by rw [Nat.mul_comm, roundShift_mul]
  have rounded := round_within target (by omega) (by omega) (by omega)
  rw [rounded]
  simp only [exact]
  rfl

theorem power_mul (range : InRange (2 ^ 23) f) (least : -149 ≤ e + f + 23) :
    power f * normal m e pos = normal m (e + f + 23) pos := by
  rw [← mul_power h pos range least, power, mul_normal range _ pos h, mul_normal h pos _ range,
    Nat.mul_comm, Int.add_comm]

/-- A division by a power of two is taken to one bit more, and that bit is zero. -/
theorem divCore_power (least : -148 ≤ e - f - 23) :
    divCore Format.binary32 m e (2 ^ 23) f = (2 ^ 1 * m, e - f - 24, .exact) := by
  have target : min (e - f) (Format.binary32.targetExponent
      (totalExponent m e - totalExponent (2 ^ 23) f)) = e - f - 24 := by
    simp only [Format.targetExponent, totalExponent, log2_normal h.lower h.upper, Nat.log2_two_pow,
      Format.mantissaBits, Format.minExponent]
    omega
  have amount : (e - f - (e - f - 24)).toNat = 24 := by omega
  have shifted : m * 2 ^ 24 = 2 ^ 1 * m * 2 ^ 23 := by omega
  simp only [divCore, target, amount, Nat.shiftLeft_eq, shifted, Nat.mul_mod_left,
    Nat.mul_div_cancel _ (Nat.two_pow_pos 23)]
  rfl

/-- The quotient by a power of two is exact. -/
theorem div_power (range : InRange (2 ^ 23) f) (least : -148 ≤ e - f - 23) :
    normal m e pos / power f = normal m (e - f - 23) pos := by
  have opened : normal m e pos / power f = .ofModel (.pack (UnpackedFloat.div Format.binary32
      (normal m e pos).toModel.unpack (power f).toModel.unpack)) := rfl
  have quotient : UnpackedFloat.div Format.binary32 (.finite .positive m e pos)
      (.finite .positive (2 ^ 23) f (by decide)) =
        roundWithAccuracy Format.binary32 .positive (divCore Format.binary32 m e (2 ^ 23) f).1
          (divCore Format.binary32 m e (2 ^ 23) f).2.1
          (divCore Format.binary32 m e (2 ^ 23) f).2.2 := rfl
  rw [opened, power, unpack_normal h, unpack_normal range, quotient, divCore_power h least]
  obtain ⟨lower, upper, -, -⟩ := h
  have log : (2 ^ 1 * m).log2 = 24 :=
    (Nat.log2_eq_iff (by omega)).mpr ⟨by omega, by omega⟩
  have target : Format.binary32.targetExponent (totalExponent (2 ^ 1 * m) (e - f - 24)) =
      e - f - 24 + (1 : Nat) := by
    simp only [Format.targetExponent, totalExponent, log, Format.mantissaBits, Format.minExponent]
    omega
  have exact := roundShift_mul m 1
  have same : e - f - 24 + (1 : Nat) = e - f - 23 := by omega
  have rounded := round_within target (by omega) (by omega) (by omega)
  simp only [exact, same] at rounded
  rw [rounded]
  rfl

/-- One is neutral for normal numbers. -/
theorem one_mul_normal : 1 * normal m e pos = normal m e pos := by
  have one : (1 : Float32) = power (-23) := by rfl
  have same : e + -23 + 23 = e := by omega
  rw [one, power_mul h pos (inRange_power (by decide) (by decide)) (same.symm ▸ h.least), same]

/-- Doubling a half is exact. -/
theorem two_mul_half (least : -148 ≤ e) :
    2 * (normal m e pos * Float32.ofBits 0x3f000000) = normal m e pos := by
  have half : Float32.ofBits 0x3f000000 = power (-24) := by rfl
  have two : (2 : Float32) = power (-22) := by rfl
  have halved : InRange m (e + -24 + 23) :=
    ⟨h.lower, h.upper, by omega, by have := h.greatest; omega⟩
  have same : e + -24 + 23 + -22 + 23 = e := by omega
  rw [half, two, mul_power h pos (inRange_power (by decide) (by decide)) halved.least,
    power_mul halved pos (inRange_power (by decide) (by decide)) (same.symm ▸ h.least), same]

end Scaling

section Whole

variable {n : Nat}

/-- A whole number of at most 24 bits is shifted up to all of them; nothing is rounded. -/
theorem round_small (pos : 0 < n) (small : n < 2 ^ 24) :
    ∃ m e, ∃ hm : 0 < m, InRange m e ∧
      UnpackedFloat.round Format.binary32 .positive n 0 = .finite .positive m e hm ∧
      m * 2 ^ (e + 149).toNat = n * wholeUnit := by
  have log : n.log2 < 24 := (Nat.log2_lt (by omega)).mpr small
  have lower : 2 ^ n.log2 ≤ n := Nat.log2_self_le (by omega)
  have upper : n < 2 ^ (n.log2 + 1) := Nat.lt_log2_self
  obtain ⟨up, hup⟩ : ∃ up, n.log2 + up = 23 := ⟨23 - n.log2, by omega⟩
  have power : 2 ^ n.log2 * 2 ^ up = 2 ^ 23 := by rw [← Nat.pow_add, hup]
  have range : InRange (n * 2 ^ up) (-up) := by
    refine ⟨?_, ?_, by omega, by omega⟩
    · rw [← power]
      exact Nat.mul_le_mul_right _ lower
    · have above := Nat.mul_lt_mul_of_pos_right upper (Nat.two_pow_pos up)
      rw [Nat.pow_succ, Nat.mul_right_comm, power] at above
      omega
  have target : Format.binary32.targetExponent (totalExponent n 0) = -up := by
    simp only [Format.targetExponent, totalExponent, Format.mantissaBits, Format.minExponent]
    omega
  have amount : (0 - -(up : Int)).toNat = up := by omega
  have down : 0 - (up : Int) = -up := by omega
  have still : -(up : Int) + (0 : Nat) = -up := by omega
  have kept := target_eq (log2_normal range.lower range.upper) range.least
  have same := roundShift_zero (n * 2 ^ up)
  have rounded := round_within (n := n * 2 ^ up) (k := 0) (e := -up) (still.symm ▸ kept)
    (same.symm ▸ range.lower) (same.symm ▸ range.upper) (by omega)
  simp only [same, still] at rounded
  have positive : 0 < n * 2 ^ up := Nat.mul_pos pos (Nat.two_pow_pos up)
  refine ⟨n * 2 ^ up, -up, positive, range, ?_, ?_⟩
  · simp only [UnpackedFloat.round, decreaseExponent, target, amount, down, Nat.shiftLeft_eq,
      rounded]
  · have exponent : up + (-(up : Int) + 149).toNat = 149 := by omega
    rw [Nat.mul_assoc, ← Nat.pow_add, exponent, wholeUnit_eq]

/-- Rounding a whole number of more bits keeps 24 of them, or carries to the next power. -/
theorem roundShift_bounds {k : Nat} (log : n.log2 = k + 23) :
    2 ^ 23 ≤ roundShift n k ∧ roundShift n k ≤ 2 ^ 24 := by
  have hn : n ≠ 0 := by
    rintro rfl
    rw [Nat.log2_zero] at log
    omega
  obtain ⟨lower, upper⟩ := (Nat.log2_eq_iff hn).mp log
  have least : 2 ^ 23 ≤ n / 2 ^ k := by
    rw [Nat.le_div_iff_mul_le (Nat.two_pow_pos k), ← Nat.pow_add, Nat.add_comm]
    exact lower
  have most : n / 2 ^ k < 2 ^ 24 := by
    rw [Nat.div_lt_iff_lt_mul (Nat.two_pow_pos k), ← Nat.pow_add, Nat.add_comm]
    exact upper
  rw [roundShift_eq]
  split <;> omega

theorem round_large {k : Nat} (log : n.log2 = k + 23) (small : n < 2 ^ 64) :
    ∃ m e, ∃ hm : 0 < m, InRange m e ∧
      UnpackedFloat.round Format.binary32 .positive n 0 = .finite .positive m e hm ∧
      m * 2 ^ (e + 149).toNat = roundShift n k * 2 ^ k * wholeUnit := by
  have hk : k + 23 < 64 := log ▸ (Nat.log2_lt (by rintro rfl; simp at log)).mpr small
  have target : Format.binary32.targetExponent (totalExponent n 0) = 0 + k := by
    simp only [Format.targetExponent, totalExponent, Format.mantissaBits, Format.minExponent]
    omega
  have amount : (0 - (0 + (k : Int))).toNat = 0 := by omega
  have opened : UnpackedFloat.round Format.binary32 .positive n 0 =
      roundWithAccuracy Format.binary32 .positive n 0 .exact := by
    simp only [UnpackedFloat.round, decreaseExponent, target, amount, Nat.shiftLeft_zero]
    rfl
  obtain ⟨lower, upper⟩ := roundShift_bounds log
  rcases Nat.lt_or_eq_of_le upper with within | carry
  · refine ⟨_, _, by omega, ⟨lower, within, ?_, ?_⟩,
      opened.trans (round_within target lower within (by omega)), ?_⟩
    · omega
    · omega
    · have exponent : (0 + (k : Int) + 149).toNat = k + 149 := by omega
      rw [exponent, Nat.pow_add, Nat.mul_assoc, wholeUnit_eq]
  · refine ⟨_, _, by omega, ⟨Nat.le_refl _, by omega, ?_, ?_⟩,
      opened.trans (round_carry target carry (by omega)), ?_⟩
    · omega
    · omega
    · have exponent : (0 + (k : Int) + 1 + 149).toNat = k + 150 := by omega
      rw [exponent, carry, wholeUnit_eq]
      ring

/-- A whole number below `2⁶⁴` becomes a normal number of the value it is rounded to. -/
theorem ofNat_normal (pos : 0 < n) (small : n < 2 ^ 64) :
    ∃ m e, ∃ hm : 0 < m, InRange m e ∧ ofNat n = normal m e hm ∧
      m * 2 ^ (e + 149).toNat = nearestTo n * wholeUnit := by
  have opened : ofNat n =
      .ofModel (.pack (UnpackedFloat.round Format.binary32 .positive n 0)) := by
    have word : (UInt64.ofNat n).toNat = n := UInt64.toNat_ofNat_of_lt small
    have sign : compare (n : Int) 0 = .gt := by
      rw [compare_gt_iff_gt]
      omega
    change Float32.ofModel (.pack (UnpackedFloat.normalize Format.binary32
      ((UInt64.ofNat n).toNat : Int) 0 .positive)) = _
    simp only [word, UnpackedFloat.normalize, sign]
    rfl
  rcases Nat.lt_or_ge n (2 ^ 24) with few | many
  · obtain ⟨m, e, hm, range, rounded, value⟩ := round_small pos few
    refine ⟨m, e, hm, range, ?_, ?_⟩
    · rw [opened, rounded, normal]
    · rw [nearestTo_of_lt few]
      exact value
  · have log : n.log2 = n.log2 - 23 + 23 := by
      have : 24 ≤ n.log2 := (Nat.le_log2 (by omega)).mpr many
      omega
    obtain ⟨m, e, hm, range, rounded, value⟩ := round_large log small
    refine ⟨m, e, hm, range, ?_, ?_⟩
    · rw [opened, rounded, normal]
    · rw [nearestTo_of_le many]
      exact value

/-- A whole number is read back as what it was rounded to. -/
theorem nearestWhole_ofNat (small : n < 2 ^ 64) : nearestWhole (ofNat n) = nearestTo n := by
  rcases Nat.eq_zero_or_pos n with rfl | pos
  · rfl
  · obtain ⟨m, e, hm, range, same, value⟩ := ofNat_normal pos small
    have half : halfUnit < wholeUnit := by decide
    rw [nearestWhole, same, units_normal range, value, Nat.mul_comm,
      Nat.mul_add_div (by decide), Nat.div_eq_of_lt half, Nat.add_zero]

theorem one_mul_ofNat (small : n < 2 ^ 64) : 1 * ofNat n = ofNat n := by
  rcases Nat.eq_zero_or_pos n with rfl | pos
  · rfl
  · obtain ⟨m, e, hm, range, same, -⟩ := ofNat_normal pos small
    rw [same, one_mul_normal range]

theorem isNaN_ofNat (small : n < 2 ^ 64) : (ofNat n).isNaN = false := by
  rcases Nat.eq_zero_or_pos n with rfl | pos
  · rfl
  · obtain ⟨m, e, hm, range, same, -⟩ := ofNat_normal pos small
    rw [same, isNaN_normal range]

theorem negative_ofNat (small : n < 2 ^ 64) : negative (ofNat n) = false := by
  rcases Nat.eq_zero_or_pos n with rfl | pos
  · rfl
  · obtain ⟨m, e, hm, range, same, -⟩ := ofNat_normal pos small
    rw [same, negative_normal range]

end Whole

end LSystem.Binary32
