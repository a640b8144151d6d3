import LSystem.Figure.Sowing
import LSystem.Proofs.Rounding

namespace LSystem

namespace Binary32

/-- The numbers that 23 bits hold are normal numbers, one or more. -/
theorem ofNat_atLeastOne {n : Nat} (pos : 0 < n) (small : n < 2 ^ 24) :
    ∃ m e, ∃ hm : 0 < m, InRange m e ∧ -23 ≤ e ∧ ofNat n = normal m e hm := by
  obtain ⟨m, e, hm, range, same, value⟩ := ofNat_normal pos (Nat.lt_trans small (by decide))
  refine ⟨m, e, hm, range, ?_, same⟩
  have large : 2 ^ 149 ≤ m * 2 ^ (e + 149).toNat := by
    rw [value, nearestTo_of_lt small, wholeUnit_eq]
    exact Nat.le_mul_of_pos_left _ pos
  have above : 2 ^ 149 < 2 ^ (24 + (e + 149).toNat) := by
    rw [Nat.pow_add]
    exact Nat.lt_of_le_of_lt large (Nat.mul_lt_mul_of_pos_right range.upper (Nat.two_pow_pos _))
  have := (Nat.pow_lt_pow_iff_right (by decide)).mp above
  omega

end Binary32

namespace Generator

open Binary32

/-- Half of a draw is half of it: nothing is rounded. -/
theorem two_mul_half_fraction (g : Generator) :
    2 * (g.fraction * Float32.ofBits 0x3f000000) = g.fraction := by
  have small : (g.word >>> 9).toNat < 2 ^ 23 := by
    have shifted : (g.word >>> 9).toNat = g.word.toNat / 2 ^ 9 := by
      rw [UInt32.toNat_shiftRight, Nat.shiftRight_eq_div_pow]
      rfl
    have := g.word.toNat_lt
    omega
  have whole : (g.word >>> 9).toUInt64.toFloat32 = ofNat (g.word >>> 9).toNat := by
    rw [ofNat, UInt64.ofNat_uInt32ToNat]
  have unit : (8388608 : UInt64).toFloat32 = power 0 := by rfl
  rw [fraction, whole, unit]
  rcases Nat.eq_zero_or_pos (g.word >>> 9).toNat with zero | pos
  · rw [zero]
    rfl
  · obtain ⟨m, e, hm, range, least, same⟩ := ofNat_atLeastOne pos (Nat.lt_trans small (by decide))
    rw [same, div_power range hm (inRange_power (by decide) (by decide)) (by omega)]
    exact two_mul_half ⟨range.lower, range.upper, by omega, by have := range.greatest; omega⟩ hm
      (by omega)

end Generator

namespace Sowing

variable (s : Sowing) (species : Species)

/-- Figure number `i` of those that are sown from a source: it takes four draws, and those before it
took as many each. -/
def figureAt (g : Generator) (i : Nat) : Figure where
  species
  origin := ⟨g.drawAt (4 * i), g.drawAt (4 * i + 1)⟩
  heading := quarterTurn
  step := s.step
  colour := ⟨1, g.drawAt (4 * i + 2), g.drawAt (4 * i + 3) * Float32.ofBits 0x3f000000⟩
  depth := s.depth
  expansion? := none

theorem one_eq (g : Generator) : s.one species g = (s.figureAt species g 0, g.skip 4) := rfl

/-- Figures that were sown before count as well. -/
theorem figureAt_skip (g : Generator) (n : Nat) :
    s.figureAt species (g.skip (4 * n)) = fun i => s.figureAt species g (n + i) := by
  funext i
  simp only [figureAt, Generator.drawAt_skip, Nat.mul_add, Nat.add_assoc]

theorem sow_eq (n : Nat) (g : Generator) :
    s.sow species n g = ((List.range n).map (s.figureAt species g), g.skip (4 * n)) := by
  induction n generalizing g with
  | zero => rfl
  | succ n ih =>
    -- The others are sown from four draws on: there number `i` is number `i + 1` from here.
    have later : s.figureAt species (g.skip 4) = fun i => s.figureAt species g (i + 1) := by
      simpa only [Nat.add_comm] using s.figureAt_skip species g 1
    have left : (g.skip 4).skip (4 * n) = g.skip (4 * (n + 1)) := by
      rw [← Generator.skip_add, Nat.mul_succ, Nat.add_comm]
    rw [sow, one_eq]
    simp only [ih, later, left, List.range_succ_eq_map, List.map_cons, List.map_map]
    rfl

/-- Sowing goes on where it stopped. -/
theorem sow_add (n m : Nat) (g : Generator) :
    s.sow species (n + m) g =
      ((s.sow species n g).1 ++ (s.sow species m (s.sow species n g).2).1,
        (s.sow species m (s.sow species n g).2).2) := by
  simp only [sow_eq, figureAt_skip, List.range_add, List.map_append, List.map_map, Nat.mul_add,
    Generator.skip_add]
  rfl

theorem eq_figureAt_of_sow {n i : Nat} {g : Generator} {f : Figure}
    (found : (s.sow species n g).1[i]? = some f) : f = s.figureAt species g i := by
  rw [sow_eq, List.getElem?_map, Option.map_eq_some_iff] at found
  obtain ⟨j, place, rfl⟩ := found
  obtain ⟨-, rfl⟩ := List.getElem?_eq_some_iff.mp place
  rw [List.getElem_range]

/-- Sowing goes on where it stopped: more figures leave those before them as they are, where they
stand and how they are coloured. Figure `i` takes the draws `4 i` to `4 i + 3` for its place, its
green and twice its blue, and nothing else tells the figures apart. -/
theorem sowing_goes_on (s : Sowing) (species : Species) (g : Generator) (n m : Nat) :
    let first := s.sow species n g
    let more := s.sow species m first.2
    s.sow species (n + m) g = (first.1 ++ more.1, more.2) ∧
      first.1.length = n ∧ first.2 = g.skip (4 * n) ∧
      ∀ i f, first.1[i]? = some f →
        f.origin = ⟨g.drawAt (4 * i), g.drawAt (4 * i + 1)⟩ ∧
        f.colour.red = 1 ∧ f.colour.green = g.drawAt (4 * i + 2) ∧
        2 * f.colour.blue = g.drawAt (4 * i + 3) ∧
        f.species = species ∧ f.heading = quarterTurn ∧ f.step = s.step ∧ f.depth = s.depth ∧
        f.expansion? = none := by
  intro first more
  have sown : first = _ := s.sow_eq species n g
  refine ⟨s.sow_add species n m g, by simp [sown], by rw [sown], ?_⟩
  intro i f found
  obtain rfl := s.eq_figureAt_of_sow species found
  exact ⟨rfl, rfl, rfl, Generator.two_mul_half_fraction _, rfl, rfl, rfl, rfl, rfl⟩

/-- The second of two ferns is the second of three as well. -/
theorem sowing_goes_on_ferns :
    let g := Generator.ofSeed 7
    ∃ f, (usual.sow .fern 2 g).1[1]? = some f ∧ (usual.sow .fern 3 g).1[1]? = some f ∧
      f.origin = ⟨g.drawAt 4, g.drawAt 5⟩ ∧ f.colour.green = g.drawAt 6 ∧
      2 * f.colour.blue = g.drawAt 7 := by
  intro g
  obtain ⟨whole, size, -, parts⟩ := sowing_goes_on usual .fern g 2 1
  have inside : 1 < (usual.sow .fern 2 g).1.length := by
    rw [size]
    decide
  have second := List.getElem?_eq_getElem inside
  obtain ⟨origin, -, green, blue, -⟩ := parts 1 _ second
  refine ⟨_, second, ?_, origin, green, blue⟩
  rw [whole, List.getElem?_append_left inside, second]

end Sowing
end LSystem
