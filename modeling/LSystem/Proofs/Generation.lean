import LSystem.Rewriter
import LSystem.Proofs.Dividing
import Mathlib.Data.List.Basic
import Mathlib.Logic.Function.Iterate

namespace LSystem

/-- The next word read off the rules: the bodies of the symbols one after another, and the symbol
itself where there is no rule. -/
def Rules.next (rules : Rules) : Word → Word
  | [] => []
  | s :: w =>
    match rules.find? s with
    | some body => body ++ rules.next w
    | none => s :: rules.next w

namespace Rules

theorem next_cons (rules : Rules) (s : Symbol) (w : Word) :
    rules.next (s :: w) = rules.body s ++ rules.next w := by
  rw [next, body]
  cases rules.find? s <;> rfl

/-- A generation works on each part of a word alone. -/
theorem next_append (rules : Rules) (u v : Word) :
    rules.next (u ++ v) = rules.next u ++ rules.next v := by
  induction u with
  | nil => rfl
  | cons s u ih => simp [next_cons, ih]

end Rules

namespace Layout

/-- The symbols of a word with their cells, the first body beginning at `cell`. -/
def placedFrom (rules : Rules) (cell : Nat) : Word → List Placed
  | [] => []
  | s :: w => ⟨s, cell⟩ :: placedFrom rules (cell + rules.width s) w

theorem take_placedFrom (rules : Rules) (cell : Nat) (w : Word) (n : Nat) :
    (placedFrom rules cell w).take n = placedFrom rules cell (w.take n) := by
  induction w generalizing cell n with
  | nil => simp [placedFrom]
  | cons s w ih => cases n <;> simp [placedFrom, ih]

/-- The symbols further on have the cells behind all that the first ones become. -/
theorem drop_placedFrom (rules : Rules) (cell : Nat) (w : Word) (n : Nat) :
    (placedFrom rules cell w).drop n =
      placedFrom rules (cell + (rules.next (w.take n)).length) (w.drop n) := by
  induction w generalizing cell n with
  | nil => simp [placedFrom]
  | cons s w ih =>
    cases n with
    | zero => simp [Rules.next]
    | succ n => simp [placedFrom, ih, Rules.next_cons, Nat.add_assoc]

theorem length_placedFrom (rules : Rules) (cell : Nat) (w : Word) :
    (placedFrom rules cell w).length = w.length := by
  induction w generalizing cell with
  | nil => rfl
  | cons s w ih => simp [placedFrom, ih]

theorem le_cell_of_mem {rules : Rules} {cell : Nat} {w : Word} {p : Placed}
    (hp : p ∈ placedFrom rules cell w) : cell ≤ p.cell := by
  induction w generalizing cell with
  | nil => cases hp
  | cons s w ih =>
    rcases List.mem_cons.mp hp with rfl | hp
    · exact Nat.le_refl _
    · have := ih hp
      omega

/-- Bodies written from their cells on leave the next word, symbol by symbol. -/
theorem flatMap_placedFrom (rules : Rules) (cell : Nat) (w : Word) :
    (placedFrom rules cell w).flatMap (fun p => (rules.body p.symbol).zipIdx p.cell) =
      (rules.next w).zipIdx cell := by
  induction w generalizing cell with
  | nil => rfl
  | cons s w ih =>
    rw [Rules.next_cons, List.zipIdx_append, Rules.length_body, ← ih]
    rfl

theorem foldl_layout (rules : Rules) (l : Layout) (w : Word) :
    w.foldl (fun l s => ⟨l.placed.push ⟨s, l.total⟩, l.total + rules.width s⟩) l =
      (⟨l.placed ++ (placedFrom rules l.total w).toArray,
        l.total + (rules.next w).length⟩ : Layout) := by
  induction w generalizing l with
  | nil => simp [placedFrom, Rules.next]
  | cons s w ih =>
    rw [List.foldl_cons, ih]
    simp [placedFrom, Rules.next_cons, Nat.add_assoc]

/-- The running widths lay a word out cell by cell and end where the next word ends. -/
theorem ofWord_eq (rules : Rules) (w : Word) :
    ofWord rules w = ⟨(placedFrom rules 0 w).toArray, (rules.next w).length⟩ := by
  rw [ofWord, foldl_layout]
  simp

@[simp] theorem total_ofWord (rules : Rules) (w : Word) :
    (ofWord rules w).total = (rules.next w).length := by
  rw [ofWord_eq]

@[simp] theorem size_placed_ofWord (rules : Rules) (w : Word) :
    (ofWord rules w).placed.size = w.length := by
  rw [ofWord_eq]
  simp [length_placedFrom]

/-- The cell of a symbol is the length of all that the symbols before it become. -/
theorem cellAt_ofWord (rules : Rules) (w : Word) (i : Nat) :
    (ofWord rules w).cellAt i = (rules.next (w.take i)).length := by
  have first (cell : Nat) (v : Word) :
      ((placedFrom rules cell v).head?.map Placed.cell).getD (cell + (rules.next v).length) =
        cell := by
    cases v <;> simp [placedFrom, Rules.next]
  have total : (rules.next w).length =
      (rules.next (w.take i)).length + (rules.next (w.drop i)).length := by
    rw [← List.length_append, ← Rules.next_append, List.take_append_drop]
  rw [ofWord_eq, cellAt, List.getElem?_toArray, ← List.head?_drop, drop_placedFrom, total]
  simpa using first (rules.next (w.take i)).length (w.drop i)

/-- The symbols of a share keep the cells that they have in the whole layout. -/
theorem placed_share (rules : Rules) (w : Word) (length i : Nat) :
    ((ofWord rules w).share length i).placed =
      placedFrom rules (rules.next (w.take (i * length))).length
        ((w.drop (i * length)).take length) := by
  have run : (i + 1) * length - i * length = length := by
    rw [Nat.succ_mul, Nat.add_sub_cancel_left]
  simp only [share, ofWord_eq, List.extract_toArray, List.extract_eq_take_drop, run]
  rw [drop_placedFrom, take_placedFrom, Nat.zero_add]

theorem first_share (rules : Rules) (w : Word) (length i : Nat) :
    ((ofWord rules w).share length i).first = (rules.next (w.take (i * length))).length :=
  cellAt_ofWord rules w _

/-- A share writes what its own symbols become, from its own first cell on. -/
theorem writes_share (rules : Rules) (w : Word) (length i : Nat) :
    ((ofWord rules w).share length i).writes rules =
      (rules.next ((w.drop (i * length)).take length)).zipIdx
        (rules.next (w.take (i * length))).length := by
  rw [Share.writes, first_share, placed_share, ← flatMap_placedFrom]
  apply List.flatMap_congr
  intro p hp
  -- Counting cells from the first one of the share loses nothing, for no symbol stands before it.
  rw [Nat.add_sub_cancel' (le_cell_of_mem hp)]

/-- The first shares together write the beginning of the next word. -/
theorem flatMap_writes_range (rules : Rules) (w : Word) (length count : Nat) :
    (List.range count).flatMap (fun i => ((ofWord rules w).share length i).writes rules) =
      (rules.next (w.take (count * length))).zipIdx := by
  induction count with
  | zero => simp [Rules.next]
  | succ count ih =>
    rw [List.range_succ, List.flatMap_append, ih, Nat.succ_mul, List.take_add, Rules.next_append,
      List.zipIdx_append]
    simp [writes_share]

/-- All shares together write the next word, each cell once. -/
theorem flatMap_writes_shares (rules : Rules) (w : Word) {length : Nat}
    (hl : 0 < length ∨ w = []) :
    ((ofWord rules w).shares length).flatMap (Share.writes rules) = (rules.next w).zipIdx := by
  rw [shares, List.flatMap_map, flatMap_writes_range, size_placed_ofWord]
  rcases hl with hl | rfl
  · rw [List.take_of_length_le (Dividing.le_rounded_up w.length hl)]
  · simp

end Layout

namespace Share

/-- What cells hold after some writes, one after the other. -/
def written (ws : List (Symbol × Nat)) (cells : Array Symbol) : Array Symbol :=
  ws.foldl (fun cells (symbol, cell) => cells.setIfInBounds cell symbol) cells

/-- Symbols written from a cell on replace as many cells. -/
theorem written_zipIdx (u : Word) (before after : List Symbol) (cells : List Symbol)
    (hc : cells.length = u.length) :
    written (u.zipIdx before.length) (before ++ cells ++ after).toArray =
      (before ++ u ++ after).toArray := by
  induction u generalizing before cells with
  | nil =>
    rw [List.eq_nil_of_length_eq_zero hc]
    rfl
  | cons s u ih =>
    obtain ⟨c, cells, rfl⟩ := List.exists_cons_of_length_eq_add_one hc
    have tail : cells.length = u.length := by simpa using hc
    have step := ih (before ++ [s]) cells tail
    simpa [written] using step

theorem foldl_fill (rules : Rules) (shares : List Share) (cells : Array Symbol) :
    shares.foldl (fill rules) cells = written (shares.flatMap (writes rules)) cells := by
  rw [written, List.foldl_flatMap]
  rfl

end Share

/-- Whatever the cells of the buffer held, the next word is in them when all shares were written. -/
theorem Layout.written_shares (rules : Rules) (w : Word) {length : Nat} (hl : 0 < length ∨ w = [])
    {cells : Array Symbol} (size : cells.size = (rules.next w).length) :
    Share.written (((ofWord rules w).shares length).flatMap (Share.writes rules)) cells =
      (rules.next w).toArray := by
  have filled := Share.written_zipIdx (rules.next w) [] [] cells.toList (by simpa using size)
  rw [flatMap_writes_shares rules w hl]
  simpa using filled

namespace Rewriter

theorem shareLength_pos (r : Rewriter) {size : Nat} (hs : 0 < size) : 0 < r.shareLength size := by
  apply Dividing.rounded_up_pos hs
  unfold divisions
  split <;> omega

/-- A word that is not empty is divided into shares that are not. -/
theorem divided (r : Rewriter) (w : Word) : 0 < r.shareLength w.length ∨ w = [] := by
  cases w with
  | nil => exact Or.inr rfl
  | cons s w => exact Or.inl (r.shareLength_pos (Nat.zero_lt_succ _))

/-- One generation in shares is one generation read off the rules. -/
theorem rewrite_eq_next (r : Rewriter) (rules : Rules) (w : Word) :
    r.rewrite rules w = rules.next w := by
  simp only [rewrite, Share.foldl_fill, Layout.size_placed_ofWord, Layout.total_ofWord]
  rw [Layout.written_shares rules w (r.divided w) Array.size_replicate]

/-- Stopping at an empty word changes nothing, for it stays empty. -/
theorem derive_eq_iterate (r : Rewriter) (rules : Rules) (depth : Nat) (w : Word) :
    r.derive rules depth w = rules.next^[depth] w := by
  induction depth generalizing w with
  | zero => rfl
  | succ depth ih =>
    rw [Function.iterate_succ_apply]
    cases w with
    | nil => exact (Function.iterate_fixed rfl depth).symm
    | cons s w => rw [derive, ih, rewrite_eq_next]

/-- Neither the workers nor the threshold show in a word: each generation is the bodies one after
another, and an expansion is as many generations as its depth. -/
theorem expansion_by_concatenation (r : Rewriter) :
    (∀ (rules : Rules) (w : Word), r.rewrite rules w = rules.next w) ∧
    ∀ (system : System) (depth : Nat),
      r.expand system depth = system.rules.next^[depth] system.start ∧
      r.expand system depth = alone.expand system depth := by
  refine ⟨r.rewrite_eq_next, fun system depth => ?_⟩
  have expanded (r : Rewriter) : r.expand system depth = system.rules.next^[depth] system.start :=
    r.derive_eq_iterate system.rules depth system.start
  exact ⟨expanded r, (expanded r).trans (expanded alone).symm⟩

end Rewriter
end LSystem
