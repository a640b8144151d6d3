namespace LSystem.Dividing

/-- Runs of `length` symbols reach the end when their number is rounded up. -/
theorem le_rounded_up (size : Nat) {length : Nat} (hl : 0 < length) :
    size ≤ (size + length - 1) / length * length := by
  have hd := Nat.div_add_mod (size + length - 1) length
  have hm := Nat.mod_lt (size + length - 1) hl
  rw [Nat.mul_comm] at hd
  omega

/-- The quotient rounded up is positive when there is something to divide. -/
theorem rounded_up_pos {size count : Nat} (hs : 0 < size) (hc : 0 < count) :
    0 < (size + count - 1) / count :=
  Nat.div_pos (by omega) hc

/-- Neighbouring runs of one length are the beginning of the list. -/
theorem flatMap_range_runs {α : Type} (xs : List α) (length count : Nat) :
    (List.range count).flatMap (fun i => (xs.drop (i * length)).take length) =
      xs.take (count * length) := by
  induction count with
  | zero => rw [Nat.zero_mul, List.take_zero, List.range_zero, List.flatMap_nil]
  | succ count before =>
    simp only [List.range_succ, List.flatMap_append, List.flatMap_singleton, before, Nat.succ_mul,
      List.take_add]

/-- A list is the runs that it is divided into. -/
theorem flatMap_runs {α : Type} (xs : List α) {length : Nat} (hl : 0 < length) :
    (List.range ((xs.length + length - 1) / length)).flatMap
      (fun i => (xs.drop (i * length)).take length) = xs := by
  rw [flatMap_range_runs]
  exact List.take_of_length_le (le_rounded_up xs.length hl)

/-- The symbols of a run have the numbers that they have in the whole list. -/
theorem zipIdx_run {α : Type} (xs : List α) (first length : Nat) :
    ((xs.drop first).take length).zipIdx first = (xs.zipIdx.drop first).take length := by
  apply List.ext_getElem?
  intro i
  simp only [List.getElem?_zipIdx, List.getElem?_take, List.getElem?_drop]
  split
  · rw [Nat.zero_add]
  · rfl

end LSystem.Dividing
