import LSystem.Proofs.LinePath
import Mathlib.Data.List.Chain

namespace LSystem

/-- The whole numbers that 64 bits hold with a sign. -/
def Fits (v : Int) : Prop := -2 ^ 63 ≤ v ∧ v < 2 ^ 63

namespace LineWalk

/-- All numbers that a walk holds, and those that its next step may come by. -/
def numbers (w : LineWalk) : List Int :=
  [w.x, w.y, w.endX, w.endY, w.spanX, -w.spanX, w.spanY, -w.spanY, w.error, 2 * w.error,
    w.error - w.spanY, w.error + w.spanX, w.error - w.spanY + w.spanX, w.x + w.stepX,
    w.y + w.stepY]

theorem numbers_finished (w : LineWalk) : { w with finished := true }.numbers = w.numbers := rfl

section Calls

variable {w : LineWalk}

theorem drop_of_ended (ended : w.next? = none) (n : Nat) : w.drop n = w := by
  cases n with
  | zero => rfl
  | succ n => simp only [drop, ended]

theorem take_of_ended (ended : w.next? = none) (n : Nat) : w.take n = [] := by
  cases n with
  | zero => rfl
  | succ n => simp only [take, ended]

theorem drop_add (w : LineWalk) (m n : Nat) : w.drop (m + n) = (w.drop m).drop n := by
  induction m generalizing w with
  | zero => rw [Nat.zero_add, drop]
  | succ m ih =>
    rw [Nat.succ_add, drop, drop]
    cases called : w.next? with
    | none => exact (drop_of_ended called n).symm
    | some pair => exact ih pair.2

/-- More calls give more pixels, from where the first calls left the walk. -/
theorem take_add (w : LineWalk) (m n : Nat) : w.take (m + n) = w.take m ++ (w.drop m).take n := by
  induction m generalizing w with
  | zero => rw [Nat.zero_add, take, drop, List.nil_append]
  | succ m ih =>
    rw [Nat.succ_add, take, take, drop]
    cases called : w.next? with
    | none => exact (take_of_ended called n).symm
    | some pair => exact congrArg (pair.1 :: ·) (ih pair.2)

end Calls

variable {start stop : Pixel} {k n : Nat}

theorem drop_after (hn : k + n ≤ steps start stop) :
    (after start stop k).drop n = after start stop (k + n) := by
  induction n generalizing k with
  | zero => rfl
  | succ n ih =>
    rw [drop, next?_after (by omega)]
    simp only
    rw [ih (by omega), Nat.succ_add_eq_add_succ]

theorem drop_between (hn : n ≤ steps start stop) :
    (between start stop).drop n = after start stop n := by
  rw [← after_zero, drop_after (by omega), Nat.zero_add]

/-- The last pixel leaves the walk finished, and it stays so. -/
theorem drop_between_of_lt (hn : steps start stop < n) :
    (between start stop).drop n =
      { after start stop (steps start stop) with finished := true } := by
  obtain ⟨m, rfl⟩ := Nat.exists_eq_add_of_lt hn
  rw [Nat.add_assoc, Nat.add_comm m 1, drop_add, drop_between (Nat.le_refl _), drop_add]
  have last : (after start stop (steps start stop)).drop 1 =
      { after start stop (steps start stop) with finished := true } := by
    rw [drop, next?_last]
    rfl
  rw [last]
  exact drop_of_ended rfl m

/-- Calls give a pixel for every step and one more, and nothing from then on. -/
theorem next?_drop_eq_none_iff (start stop : Pixel) (n : Nat) :
    ((between start stop).drop n).next? = none ↔ steps start stop < n := by
  rcases Nat.lt_or_ge (steps start stop) n with past | within
  · rw [drop_between_of_lt past]
    exact ⟨fun _ => past, fun _ => rfl⟩
  · rw [drop_between within]
    refine ⟨fun ended => ?_, fun past => absurd within (Nat.not_le.mpr past)⟩
    rcases Nat.lt_or_eq_of_le within with going | last
    · rw [next?_after going] at ended
      cases ended
    · rw [last, next?_last] at ended
      cases ended

/-- The line has all pixels that calls give, however many are made. -/
theorem take_between (start stop : Pixel) (n : Nat) :
    (between start stop).take n = (line start stop).take n := by
  have short {m : Nat} (hm : m ≤ steps start stop + 1) :
      (between start stop).take m = (line start stop).take m := by
    rw [← after_zero, take_after (by omega), line_eq_map, ← List.map_take, List.take_range,
      Nat.min_eq_left hm, List.range_eq_range']
  rcases Nat.le_or_ge n (steps start stop + 1) with within | past
  · exact short within
  · obtain ⟨m, rfl⟩ := Nat.exists_eq_add_of_le past
    have ended : ((between start stop).drop (steps start stop + 1)).next? = none :=
      (next?_drop_eq_none_iff start stop _).mpr (Nat.lt_succ_self _)
    rw [take_add, take_of_ended ended, short (Nat.le_refl _), List.append_nil,
      List.take_of_length_le (by simp), List.take_of_length_le (by simp)]

/-- The shorter axis gains at most one at a step. -/
theorem advance_succ {long short : Nat} (k : Nat) (hs : short ≤ long) (hl : 0 < long) :
    advance long short k ≤ advance long short (k + 1) ∧
      advance long short (k + 1) ≤ advance long short k + 1 := by
  obtain ⟨-, gains⟩ := advance_step k hs hl _ rfl
  rw [gains]
  split <;> omega

/-- The error that decides the moves is never far from half the longer span. -/
theorem advance_error {long : Nat} (short k : Nat) (hl : 0 < long) (e : Int)
    (he : e = (advance long short k + 1) * long - (k + 1) * short) :
    (long : Int) - 2 * short < 2 * e ∧ 2 * e ≤ 3 * long - 2 * short := by
  obtain ⟨lower, upper⟩ := advance_bounds short k hl
  have error := error_eq he
  omega

theorem error_after (hk : k ≤ steps start stop) :
    2 * (after start stop k).error.natAbs ≤ 3 * steps start stop := by
  have error := after_error start stop k
  rw [after_spanX, after_spanY] at error
  generalize (after start stop k).error = e at *
  rcases Nat.eq_zero_or_pos (steps start stop) with hz | hl
  · have hx := Nat.le_zero.mp (hz ▸ reachX_le_steps start stop)
    have hy := Nat.le_zero.mp (hz ▸ reachY_le_steps start stop)
    rw [hx, hy, Int.natCast_zero, Int.mul_zero, Int.sub_zero] at error
    rw [error]
    exact Nat.zero_le _
  rcases Nat.le_total (reachY start stop) (reachX start stop) with hxy | hxy
  · have long : steps start stop = reachX start stop := Nat.max_eq_left hxy
    rw [long] at hk hl error ⊢
    rw [advance_long hk] at error
    have bounds := advance_error (reachY start stop) k hl e error
    omega
  · have long : steps start stop = reachY start stop := Nat.max_eq_right hxy
    rw [long] at hk hl error ⊢
    rw [advance_long hk] at error
    have bounds := advance_error (reachX start stop) k hl (-e) (by omega)
    omega

end LineWalk

namespace Pixel

/-- How far two pixels are apart along the first axis. -/
def gapX (p q : Pixel) : Nat := ((q.x : Int) - p.x).natAbs

def gapY (p q : Pixel) : Nat := ((q.y : Int) - p.y).natAbs

/-- Coordinates that leave a line room for its error. -/
def Near (p : Pixel) : Prop := p.x < 2 ^ 61 ∧ p.y < 2 ^ 61

instance (p : Pixel) : Decidable p.Near := inferInstanceAs (Decidable (_ ∧ _))

theorem Near.plain {p : Pixel} (h : p.Near) : p.Plain := by
  obtain ⟨hx, hy⟩ := h
  exact ⟨by omega, by omega⟩

end Pixel

theorem toward_gap {a b n m : Nat} (hm : m ≤ (b - a) + (a - b)) (hn : n ≤ m) :
    ((toward a b m : Int) - toward a b n).natAbs = m - n := by
  unfold toward
  split <;> omega

namespace LineWalk

variable {start stop : Pixel} {k n : Nat}

theorem reachX_eq_gapX (hs : start.Plain) (ht : stop.Plain) :
    reachX start stop = start.gapX stop := by
  rw [reachX, signed_of_lt hs.1, signed_of_lt ht.1, Pixel.gapX]

theorem reachY_eq_gapY (hs : start.Plain) (ht : stop.Plain) :
    reachY start stop = start.gapY stop := by
  rw [reachY, signed_of_lt hs.2, signed_of_lt ht.2, Pixel.gapY]

theorem steps_eq (hs : start.Plain) (ht : stop.Plain) :
    steps start stop = max (start.gapX stop) (start.gapY stop) := by
  rw [steps, reachX_eq_gapX hs ht, reachY_eq_gapY hs ht]

theorem steps_lt (hs : start.Near) (ht : stop.Near) : steps start stop < 2 ^ 61 := by
  rw [steps_eq hs.plain ht.plain, Pixel.gapX, Pixel.gapY]
  obtain ⟨hsx, hsy⟩ := hs
  obtain ⟨htx, hty⟩ := ht
  omega

/-- A coordinate on the way between two others, before it is read without its sign. -/
theorem along_bounds {a b n : Nat} (hn : n ≤ (b - a) + (a - b)) :
    0 ≤ (a : Int) + (if (a : Int) < b then 1 else -1) * n ∧
      (a : Int) + (if (a : Int) < b then 1 else -1) * n ≤ max a b := by
  split <;> omega

theorem after_x_bounds (hs : start.Plain) (ht : stop.Plain) (hk : k ≤ steps start stop) :
    0 ≤ (after start stop k).x ∧ (after start stop k).x ≤ max start.x stop.x := by
  rw [after_x]
  simp only [after, between, signed_of_lt hs.1, signed_of_lt ht.1]
  exact along_bounds (reach_plain hs.1 ht.1 ▸ advance_le hk)

theorem after_y_bounds (hs : start.Plain) (ht : stop.Plain) (hk : k ≤ steps start stop) :
    0 ≤ (after start stop k).y ∧ (after start stop k).y ≤ max start.y stop.y := by
  rw [after_y]
  simp only [after, between, signed_of_lt hs.2, signed_of_lt ht.2]
  exact along_bounds (reach_plain hs.2 ht.2 ▸ advance_le hk)

/-- With that room no number of the walk comes near to the end of 64 bits. -/
theorem fits_after (hs : start.Near) (ht : stop.Near) (hk : k ≤ steps start stop) :
    ∀ v ∈ (after start stop k).numbers, Fits v := by
  have x := after_x_bounds hs.plain ht.plain hk
  have y := after_y_bounds hs.plain ht.plain hk
  have endX : (after start stop k).endX = stop.x := by
    simp only [after, between, signed_of_lt ht.plain.1]
  have endY : (after start stop k).endY = stop.y := by
    simp only [after, between, signed_of_lt ht.plain.2]
  have spanX : (after start stop k).spanX ≤ steps start stop := by
    have := reachX_le_steps start stop
    rw [after_spanX]
    omega
  have spanY : (after start stop k).spanY ≤ steps start stop := by
    have := reachY_le_steps start stop
    rw [after_spanY]
    omega
  have low : 0 ≤ (after start stop k).spanX ∧ 0 ≤ (after start stop k).spanY :=
    ⟨Int.natCast_nonneg _, Int.natCast_nonneg _⟩
  have error := error_after hk
  have stepX := after_stepX start stop k
  have stepY := after_stepY start stop k
  have room := steps_lt hs ht
  obtain ⟨hsx, hsy⟩ := hs
  obtain ⟨htx, hty⟩ := ht
  generalize after start stop k = w at *
  intro v hv
  simp only [numbers, List.mem_cons, List.not_mem_nil, or_false] at hv
  unfold Fits
  rcases hv with rfl | rfl | rfl | rfl | rfl | rfl | rfl | rfl | rfl | rfl | rfl | rfl | rfl |
    rfl | rfl <;> omega

/-- A step of the walk moves by one along the longer axis, and by at most one along the other. -/
def StepOf (start stop p q : Pixel) : Prop :=
  p.gapX q ≤ 1 ∧ p.gapY q ≤ 1 ∧ (start.gapY stop ≤ start.gapX stop → p.gapX q = 1) ∧
    (start.gapX stop ≤ start.gapY stop → p.gapY q = 1)

theorem stepOf_after (hs : start.Plain) (ht : stop.Plain) (hk : k < steps start stop) :
    StepOf start stop (after start stop k).pixel (after start stop (k + 1)).pixel := by
  have gainX := advance_succ k (reachX_le_steps start stop) (by omega)
  have gainY := advance_succ k (reachY_le_steps start stop) (by omega)
  have further : advance (steps start stop) (steps start stop) (k + 1) =
      advance (steps start stop) (steps start stop) k + 1 := by
    rw [advance_long hk, advance_long (Nat.le_of_lt hk)]
  have gapX : (after start stop k).pixel.gapX (after start stop (k + 1)).pixel =
      advance (steps start stop) (reachX start stop) (k + 1) -
        advance (steps start stop) (reachX start stop) k := by
    rw [pixel_after hs ht hk, pixel_after hs ht (Nat.le_of_lt hk)]
    exact toward_gap (reach_plain hs.1 ht.1 ▸ advance_le hk) gainX.1
  have gapY : (after start stop k).pixel.gapY (after start stop (k + 1)).pixel =
      advance (steps start stop) (reachY start stop) (k + 1) -
        advance (steps start stop) (reachY start stop) k := by
    rw [pixel_after hs ht hk, pixel_after hs ht (Nat.le_of_lt hk)]
    exact toward_gap (reach_plain hs.2 ht.2 ▸ advance_le hk) gainY.1
  rw [StepOf, gapX, gapY, ← reachX_eq_gapX hs ht, ← reachY_eq_gapY hs ht]
  refine ⟨by omega, by omega, fun hxy => ?_, fun hxy => ?_⟩
  · have long : reachX start stop = steps start stop := (Nat.max_eq_left hxy).symm
    rw [long]
    omega
  · have long : reachY start stop = steps start stop := (Nat.max_eq_right hxy).symm
    rw [long]
    omega

theorem isChain_line (hs : start.Plain) (ht : stop.Plain) :
    (line start stop).IsChain (StepOf start stop) := by
  rw [line_eq_map, List.isChain_map, List.isChain_iff_getElem]
  intro i hi
  rw [List.length_range] at hi
  simp only [List.getElem_range]
  exact stepOf_after hs ht (by omega)

theorem head?_line (hs : start.Plain) (ht : stop.Plain) : (line start stop).head? = some start := by
  rw [line_eq_map, List.head?_map, List.head?_range, if_neg (Nat.succ_ne_zero _), Option.map_some,
    pixel_after hs ht (Nat.zero_le _)]
  simp [toward]

theorem getLast?_line (hs : start.Plain) (ht : stop.Plain) :
    (line start stop).getLast? = some stop := by
  rw [line_eq_map, List.getLast?_map, List.getLast?_range, if_neg (Nat.succ_ne_zero _),
    Option.map_some, Nat.add_sub_cancel, pixel_after hs ht (Nat.le_refl _),
    advance_last (reachX_le_steps start stop), advance_last (reachY_le_steps start stop),
    reachX, reachY, reach_plain hs.1 ht.1, reach_plain hs.2 ht.2, toward_last, toward_last]

/-- From near pixels a walk goes to its end and is over: it comes by as many pixels as the longer
axis has steps, and one more, each next to the one before, none of them twice and none outside the
rectangle of its ends, and none of its numbers leaves 64 bits on the way. -/
theorem leads_to_stop (hs : start.Near) (ht : stop.Near) :
    let walk := between start stop
    let path := line start stop
    (∀ n, walk.take n = path.take n ∧ ((walk.drop n).next? = none ↔ path.length ≤ n) ∧
        ∀ v ∈ (walk.drop n).numbers, Fits v) ∧
      path.length = max (start.gapX stop) (start.gapY stop) + 1 ∧
      path.head? = some start ∧ path.getLast? = some stop ∧
      path.IsChain (StepOf start stop) ∧ path.Nodup ∧
      ∀ p ∈ path, (min start.x stop.x ≤ p.x ∧ p.x ≤ max start.x stop.x) ∧
        min start.y stop.y ≤ p.y ∧ p.y ≤ max start.y stop.y := by
  intro walk path
  have length : path.length = steps start stop + 1 := length_line start stop
  refine ⟨fun n => ⟨take_between start stop n, ?_, ?_⟩, ?_, head?_line hs.plain ht.plain,
    getLast?_line hs.plain ht.plain, isChain_line hs.plain ht.plain,
    nodup_line hs.plain ht.plain, fun p hp => line_bounds hs.plain ht.plain hp⟩
  · rw [length]
    exact next?_drop_eq_none_iff start stop n
  · rcases Nat.lt_or_ge (steps start stop) n with past | within
    · rw [drop_between_of_lt past, numbers_finished]
      exact fits_after hs ht (Nat.le_refl _)
    · rw [drop_between within]
      exact fits_after hs ht within
  · rw [length, steps_eq hs.plain ht.plain]

/-- A steep line that leads back along the first axis. -/
theorem leads_to_stop_steep :
    let start : Pixel := ⟨4, 0⟩
    let stop : Pixel := ⟨1, 12⟩
    start.Near ∧ stop.Near ∧ ((between start stop).drop 12).next? ≠ none ∧
      ((between start stop).drop 13).next? = none ∧ (line start stop).length = 13 ∧
      (line start stop).getLast? = some stop := by
  intro start stop
  have hs : start.Near := by decide
  have ht : stop.Near := by decide
  obtain ⟨calls, length, -, last, -⟩ := leads_to_stop hs ht
  have long : (line start stop).length = 13 := length
  refine ⟨hs, ht, ?_, ?_, long, last⟩
  · rw [Ne, (calls 12).2.1, long]
    decide
  · rw [(calls 13).2.1, long]

end LineWalk
end LSystem
