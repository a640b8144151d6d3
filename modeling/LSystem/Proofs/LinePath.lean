import LSystem.Picture.Line
import Mathlib.Data.List.Nodup
import Mathlib.Tactic.Ring

namespace LSystem

namespace LineWalk

/-- The share of `short` that belongs to `k` steps of `long`, rounded to the nearest whole; a half
goes up. -/
def advance (long short k : Nat) : Nat := (2 * k * short + long) / (2 * long)

theorem advance_bounds (short k : Nat) {long : Nat} (hl : 0 < long) :
    2 * (advance long short k * long) ≤ 2 * (k * short) + long ∧
      2 * (k * short) + long < 2 * (advance long short k * long) + 2 * long := by
  have hd := Nat.div_add_mod (2 * k * short + long) (2 * long)
  have hm := Nat.mod_lt (2 * k * short + long) (show 0 < 2 * long by omega)
  have hn : 2 * long * advance long short k = 2 * (advance long short k * long) := by ring
  have hk : 2 * k * short = 2 * (k * short) := by ring
  rw [← advance, hn, hk] at hd
  rw [hk] at hm
  omega

theorem advance_eq {long short k n : Nat} (lower : 2 * (n * long) ≤ 2 * (k * short) + long)
    (upper : 2 * (k * short) + long < 2 * (n * long) + 2 * long) :
    advance long short k = n := by
  have hk : 2 * k * short = 2 * (k * short) := by ring
  rw [advance, hk]
  apply Nat.div_eq_of_lt_le
  · have hn : n * (2 * long) = 2 * (n * long) := by ring
    rwa [hn]
  · have hn : (n + 1) * (2 * long) = 2 * (n * long) + 2 * long := by ring
    rwa [hn]

@[simp] theorem advance_zero (long short : Nat) : advance long short 0 = 0 := by
  unfold advance
  rw [Nat.mul_zero, Nat.zero_mul, Nat.zero_add]
  rcases Nat.eq_zero_or_pos long with rfl | hl
  · rfl
  · exact Nat.div_eq_of_lt (by omega)

/-- The longer axis gains one at every step. -/
theorem advance_long {long k : Nat} (hk : k ≤ long) : advance long long k = k := by
  rcases Nat.eq_zero_or_pos long with rfl | hl
  · obtain rfl := Nat.le_zero.mp hk
    rfl
  · apply advance_eq <;> omega

/-- The last step ends on both axes. -/
theorem advance_last {long short : Nat} (hs : short ≤ long) : advance long short long = short := by
  rcases Nat.eq_zero_or_pos long with rfl | hl
  · obtain rfl := Nat.le_zero.mp hs
    rfl
  · apply advance_eq <;> rw [Nat.mul_comm long short] <;> omega

/-- The shorter axis never runs ahead of its end. -/
theorem advance_le {long short k : Nat} (hk : k ≤ long) : advance long short k ≤ short := by
  rcases Nat.eq_zero_or_pos long with rfl | hl
  · obtain rfl := Nat.le_zero.mp hk
    simp
  · obtain ⟨lower, -⟩ := advance_bounds short k hl
    have hs : k * short ≤ short * long := by
      rw [Nat.mul_comm short]
      exact Nat.mul_le_mul_right short hk
    have bound : advance long short k * long < (short + 1) * long := by
      rw [Nat.succ_mul]
      omega
    exact Nat.lt_succ_iff.mp (Nat.lt_of_mul_lt_mul_right bound)

/-- The error in whole products, for which linear arithmetic is enough. -/
theorem error_eq {long short k n : Nat} {e : Int} (he : e = (n + 1) * long - (k + 1) * short) :
    e = ((n * long : Nat) : Int) + long - (k * short : Nat) - short := by
  rw [he]
  push_cast
  ring

/-- The error decides both moves: the longer axis always gains, and the shorter one exactly when
its rounded share does. -/
theorem advance_step {long short : Nat} (k : Nat) (hs : short ≤ long) (hl : 0 < long) (e : Int)
    (he : e = (advance long short k + 1) * long - (k + 1) * short) :
    -(short : Int) ≤ 2 * e ∧
      advance long short (k + 1) =
        if 2 * e ≤ long then advance long short k + 1 else advance long short k := by
  obtain ⟨lower, upper⟩ := advance_bounds short k hl
  have error := error_eq he
  generalize advance long short k = n at *
  have further : (k + 1) * short = k * short + short := Nat.succ_mul k short
  refine ⟨by omega, ?_⟩
  split
  · have gained : (n + 1) * long = n * long + long := Nat.succ_mul n long
    apply advance_eq <;> omega
  · apply advance_eq <;> omega

/-- How far a line reaches along the first axis. -/
def reachX (start stop : Pixel) : Nat := (signed stop.x - signed start.x).natAbs

def reachY (start stop : Pixel) : Nat := (signed stop.y - signed start.y).natAbs

/-- The steps of a line are those along its longer axis. -/
def steps (start stop : Pixel) : Nat := max (reachX start stop) (reachY start stop)

theorem reachX_le_steps (start stop : Pixel) : reachX start stop ≤ steps start stop :=
  Nat.le_max_left _ _

theorem reachY_le_steps (start stop : Pixel) : reachY start stop ≤ steps start stop :=
  Nat.le_max_right _ _

/-- The walk after `k` steps, in closed form. -/
def after (start stop : Pixel) (k : Nat) : LineWalk :=
  let w := between start stop
  let i := advance (steps start stop) (reachX start stop) k
  let j := advance (steps start stop) (reachY start stop) k
  { w with
    x := w.x + w.stepX * i
    y := w.y + w.stepY * j
    error := (j + 1) * w.spanX - (i + 1) * w.spanY }

variable {start stop : Pixel} {k : Nat}

theorem after_zero (start stop : Pixel) : after start stop 0 = between start stop := by
  simp only [after, between, advance_zero, Int.natCast_zero, Int.mul_zero, Int.add_zero,
    Int.zero_add, Int.one_mul]

theorem after_x (start stop : Pixel) (k : Nat) :
    (after start stop k).x = (between start stop).x +
      (after start stop k).stepX * advance (steps start stop) (reachX start stop) k := by
  simp only [after]

theorem after_y (start stop : Pixel) (k : Nat) :
    (after start stop k).y = (between start stop).y +
      (after start stop k).stepY * advance (steps start stop) (reachY start stop) k := by
  simp only [after]

theorem after_error (start stop : Pixel) (k : Nat) :
    (after start stop k).error =
      (advance (steps start stop) (reachY start stop) k + 1) * (after start stop k).spanX -
        (advance (steps start stop) (reachX start stop) k + 1) * (after start stop k).spanY := by
  simp only [after]

theorem after_spanX (start stop : Pixel) (k : Nat) :
    (after start stop k).spanX = reachX start stop := rfl

theorem after_spanY (start stop : Pixel) (k : Nat) :
    (after start stop k).spanY = reachY start stop := rfl

/-- A step in counts: the two comparisons say which of the two counts gains one. -/
theorem step_counts {w : LineWalk} {x y : Int} {i i' j j' : Nat} (hx : w.x = x + w.stepX * i)
    (hy : w.y = y + w.stepY * j) (he : w.error = (j + 1) * w.spanX - (i + 1) * w.spanY)
    (gainX : i' = if -w.spanY ≤ 2 * w.error then i + 1 else i)
    (gainY : j' = if 2 * w.error ≤ w.spanX then j + 1 else j) :
    w.step = { w with
      x := x + w.stepX * i'
      y := y + w.stepY * j'
      error := (j' + 1) * w.spanX - (i' + 1) * w.spanY } := by
  obtain ⟨wx, wy, endX, endY, spanX, spanY, stepX, stepY, error, finished⟩ := w
  subst gainX gainY
  simp only at hx hy he
  unfold step
  split <;> split <;> simp only [alongX, alongY, hx, hy, he] <;> congr 1 <;> push_cast <;> ring

/-- One step of the walk is one step of the closed form. -/
theorem step_after (hk : k < steps start stop) :
    (after start stop k).step = after start stop (k + 1) := by
  have gains :
      advance (steps start stop) (reachX start stop) (k + 1) =
        (if -(after start stop k).spanY ≤ 2 * (after start stop k).error then
          advance (steps start stop) (reachX start stop) k + 1
        else advance (steps start stop) (reachX start stop) k) ∧
      advance (steps start stop) (reachY start stop) (k + 1) =
        if 2 * (after start stop k).error ≤ (after start stop k).spanX then
          advance (steps start stop) (reachY start stop) k + 1
        else advance (steps start stop) (reachY start stop) k := by
    have error := after_error start stop k
    rw [after_spanX, after_spanY] at error ⊢
    generalize (after start stop k).error = e at *
    -- The axis with the longer reach is `long`; when it is the second, the error changes sign.
    rcases Nat.le_total (reachY start stop) (reachX start stop) with hxy | hxy
    · have long : steps start stop = reachX start stop := Nat.max_eq_left hxy
      rw [long] at hk error ⊢
      rw [advance_long (Nat.le_of_lt hk)] at error ⊢
      obtain ⟨moves, gains⟩ := advance_step k hxy (by omega) e error
      exact ⟨by rw [advance_long hk, if_pos moves], gains⟩
    · have long : steps start stop = reachY start stop := Nat.max_eq_right hxy
      rw [long] at hk error ⊢
      rw [advance_long (Nat.le_of_lt hk)] at error ⊢
      obtain ⟨moves, gains⟩ := advance_step k hxy (by omega) (-e) (by omega)
      refine ⟨?_, by rw [advance_long hk, if_pos (by omega)]⟩
      rw [gains]
      split <;> split <;> omega
  rw [step_counts (after_x start stop k) (after_y start stop k) (after_error start stop k)
    gains.1 gains.2]
  simp only [after]

theorem after_endX (start stop : Pixel) (k : Nat) :
    (after start stop k).endX =
      (between start stop).x + (after start stop k).stepX * reachX start stop := by
  simp only [after, between, reachX]
  split <;> omega

theorem after_endY (start stop : Pixel) (k : Nat) :
    (after start stop k).endY =
      (between start stop).y + (after start stop k).stepY * reachY start stop := by
  simp only [after, between, reachY]
  split <;> omega

theorem after_stepX (start stop : Pixel) (k : Nat) :
    (after start stop k).stepX = 1 ∨ (after start stop k).stepX = -1 := by
  simp only [after, between]
  split <;> simp

theorem after_stepY (start stop : Pixel) (k : Nat) :
    (after start stop k).stepY = 1 ∨ (after start stop k).stepY = -1 := by
  simp only [after, between]
  split <;> simp

/-- The walk meets its end at the last step and not before. -/
theorem ended_after (hk : k ≤ steps start stop) :
    (after start stop k).x = (after start stop k).endX ∧
      (after start stop k).y = (after start stop k).endY ↔ k = steps start stop := by
  have stepX := after_stepX start stop k
  have stepY := after_stepY start stop k
  rw [after_x, after_y, after_endX, after_endY]
  constructor
  · rintro ⟨hx, hy⟩
    rcases Nat.le_total (reachY start stop) (reachX start stop) with hxy | hxy
    · have long : steps start stop = reachX start stop := Nat.max_eq_left hxy
      rw [long] at hk hx ⊢
      rw [advance_long hk] at hx
      rcases stepX with h | h <;> rw [h] at hx <;> omega
    · have long : steps start stop = reachY start stop := Nat.max_eq_right hxy
      rw [long] at hk hy ⊢
      rw [advance_long hk] at hy
      rcases stepY with h | h <;> rw [h] at hy <;> omega
  · intro last
    rw [last, advance_last (reachX_le_steps start stop), advance_last (reachY_le_steps start stop)]
    exact ⟨rfl, rfl⟩

theorem next?_after (hk : k < steps start stop) :
    (after start stop k).next? = some ((after start stop k).pixel, after start stop (k + 1)) := by
  have going : ¬ ((after start stop k).x = (after start stop k).endX ∧
      (after start stop k).y = (after start stop k).endY) := by
    rw [ended_after (Nat.le_of_lt hk)]
    omega
  have unfinished : (after start stop k).finished = false := rfl
  simp only [next?, unfinished, going, step_after hk, Bool.false_eq_true, ↓reduceIte]

/-- Behind the last pixel the walk is over. -/
theorem next?_last (start stop : Pixel) :
    (after start stop (steps start stop)).next? =
      some ((after start stop (steps start stop)).pixel,
        { after start stop (steps start stop) with finished := true }) := by
  have ended := (ended_after (Nat.le_refl (steps start stop))).mpr rfl
  have unfinished : (after start stop (steps start stop)).finished = false := rfl
  simp only [next?, unfinished, ended, and_self, Bool.false_eq_true, ↓reduceIte]

theorem take_after {n : Nat} (hn : k + n ≤ steps start stop + 1) :
    (after start stop k).take n =
      (List.range' k n).map (fun i => (after start stop i).pixel) := by
  induction n generalizing k with
  | zero => rfl
  | succ n ih =>
    rw [List.range'_succ, List.map_cons]
    rcases Nat.lt_or_ge k (steps start stop) with hk | hk
    · rw [take, next?_after hk]
      simp only
      rw [ih (by omega)]
    · have last : k = steps start stop := by omega
      have ended : n = 0 := by omega
      rw [ended, last, take, next?_last]
      rfl

end LineWalk

open LineWalk

/-- A line in closed form, pixel by pixel. -/
theorem line_eq_map (start stop : Pixel) :
    line start stop =
      (List.range (steps start stop + 1)).map (fun k => (after start stop k).pixel) := by
  have longer (a b : Nat) : (max (a : Int) b).toNat = max a b := by omega
  have bound : (max (between start stop).spanX (between start stop).spanY).toNat =
      steps start stop := longer (reachX start stop) (reachY start stop)
  rw [line, bound, ← after_zero, take_after (by omega), List.range_eq_range']

@[simp] theorem length_line (start stop : Pixel) :
    (line start stop).length = steps start stop + 1 := by
  rw [line_eq_map, List.length_map, List.length_range]

/-- Coordinates that a sign does not change. -/
def Pixel.Plain (p : Pixel) : Prop := p.x < 2 ^ 63 ∧ p.y < 2 ^ 63

theorem signed_of_lt {n : Nat} (hn : n < 2 ^ 63) : signed n = n := by
  unfold signed UInt64.size
  apply Int.bmod_eq_of_le <;> omega

theorem unsigned_of_lt {n : Nat} (hn : n < 2 ^ 64) : unsigned (n : Int) = n := by
  unfold unsigned UInt64.size
  omega

/-- A coordinate `n` steps from `a` on the way to `b`. -/
def toward (a b n : Nat) : Nat := if a < b then a + n else a - n

theorem toward_bounds {a b n : Nat} (hn : n ≤ (b - a) + (a - b)) :
    min a b ≤ toward a b n ∧ toward a b n ≤ max a b := by
  unfold toward
  split <;> omega

theorem toward_last (a b : Nat) : toward a b ((b - a) + (a - b)) = b := by
  unfold toward
  split <;> omega

theorem toward_inj {a b n m : Nat} (hn : n ≤ (b - a) + (a - b)) (hm : m ≤ (b - a) + (a - b))
    (same : toward a b n = toward a b m) : n = m := by
  unfold toward at same
  split at same <;> omega

theorem reach_plain {a b : Nat} (ha : a < 2 ^ 63) (hb : b < 2 ^ 63) :
    (signed b - signed a).natAbs = (b - a) + (a - b) := by
  rw [signed_of_lt ha, signed_of_lt hb]
  omega

/-- Signed steps between plain coordinates never leave the naturals. -/
theorem unsigned_toward {a b n : Nat} (ha : a < 2 ^ 63) (hb : b < 2 ^ 63)
    (hn : n ≤ (b - a) + (a - b)) :
    unsigned (signed a + (if signed a < signed b then 1 else -1) * n) = toward a b n := by
  rw [signed_of_lt ha, signed_of_lt hb]
  unfold toward
  split <;> split
  · rw [Int.one_mul, ← Int.natCast_add, unsigned_of_lt (by omega)]
  · omega
  · omega
  · have back : (a : Int) + -1 * n = ((a - n : Nat) : Int) := by omega
    rw [back, unsigned_of_lt (by omega)]

/-- The pixel after `k` steps has come as far on each axis as its share of them. -/
theorem pixel_after {start stop : Pixel} (hs : start.Plain) (ht : stop.Plain) {k : Nat}
    (hk : k ≤ steps start stop) :
    (after start stop k).pixel =
      ⟨toward start.x stop.x (advance (steps start stop) (reachX start stop) k),
        toward start.y stop.y (advance (steps start stop) (reachY start stop) k)⟩ := by
  have hx : advance (steps start stop) (reachX start stop) k ≤
      (stop.x - start.x) + (start.x - stop.x) :=
    reach_plain hs.1 ht.1 ▸ advance_le hk
  have hy : advance (steps start stop) (reachY start stop) k ≤
      (stop.y - start.y) + (start.y - stop.y) :=
    reach_plain hs.2 ht.2 ▸ advance_le hk
  rw [pixel, after_x, after_y, ← unsigned_toward hs.1 ht.1 hx, ← unsigned_toward hs.2 ht.2 hy]
  simp only [after, between]

theorem start_mem_line {start stop : Pixel} (hs : start.Plain) (ht : stop.Plain) :
    start ∈ line start stop := by
  rw [line_eq_map]
  refine List.mem_map.mpr ⟨0, List.mem_range.mpr (Nat.zero_lt_succ _), ?_⟩
  rw [pixel_after hs ht (Nat.zero_le _)]
  simp [toward]

/-- A line stays between its ends on both axes. -/
theorem line_bounds {start stop p : Pixel} (hs : start.Plain) (ht : stop.Plain)
    (hp : p ∈ line start stop) :
    (min start.x stop.x ≤ p.x ∧ p.x ≤ max start.x stop.x) ∧
      min start.y stop.y ≤ p.y ∧ p.y ≤ max start.y stop.y := by
  rw [line_eq_map] at hp
  obtain ⟨k, hk, rfl⟩ := List.mem_map.mp hp
  have hk' : k ≤ steps start stop := Nat.lt_succ_iff.mp (List.mem_range.mp hk)
  rw [pixel_after hs ht hk']
  exact ⟨toward_bounds (reach_plain hs.1 ht.1 ▸ advance_le hk'),
    toward_bounds (reach_plain hs.2 ht.2 ▸ advance_le hk')⟩

/-- Along its longer axis a line gains one with every pixel, so it meets none twice. -/
theorem nodup_line {start stop : Pixel} (hs : start.Plain) (ht : stop.Plain) :
    (line start stop).Nodup := by
  rw [line_eq_map]
  apply List.Nodup.map_on _ List.nodup_range
  intro i hi j hj same
  have hi' : i ≤ steps start stop := Nat.lt_succ_iff.mp (List.mem_range.mp hi)
  have hj' : j ≤ steps start stop := Nat.lt_succ_iff.mp (List.mem_range.mp hj)
  rw [pixel_after hs ht hi', pixel_after hs ht hj'] at same
  obtain ⟨sameX, sameY⟩ := Pixel.mk.inj same
  have reachX : reachX start stop = (stop.x - start.x) + (start.x - stop.x) :=
    reach_plain hs.1 ht.1
  have reachY : reachY start stop = (stop.y - start.y) + (start.y - stop.y) :=
    reach_plain hs.2 ht.2
  rcases Nat.le_total (LineWalk.reachY start stop) (LineWalk.reachX start stop) with hxy | hxy
  · have long : steps start stop = LineWalk.reachX start stop := Nat.max_eq_left hxy
    rw [long] at hi' hj' sameX
    rw [advance_long hi', advance_long hj'] at sameX
    exact toward_inj (reachX ▸ hi') (reachX ▸ hj') sameX
  · have long : steps start stop = LineWalk.reachY start stop := Nat.max_eq_right hxy
    rw [long] at hi' hj' sameY
    rw [advance_long hi', advance_long hj'] at sameY
    exact toward_inj (reachY ▸ hi') (reachY ▸ hj') sameY

end LSystem
