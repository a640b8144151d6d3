import LSystem.Proofs.Generation
import LSystem.Slice
import Mathlib.Data.List.Nodup

namespace LSystem

namespace Share

/-- The cells that a share has for itself. -/
def cells (s : Share) : List Nat := List.range' s.first (s.stop - s.first)

/-- The symbols that a share writes, in the order of its cells. -/
def symbols (rules : Rules) (s : Share) : Word := (s.writes rules).map Prod.fst

/-- Shares that have all cells from one on up to another, each from where the one before it
stops. -/
inductive Follow : Nat → List Share → Nat → Prop where
  | nil {cell : Nat} : Follow cell [] cell
  | cons {s : Share} {shares : List Share} {stop : Nat} (ordered : s.first ≤ s.stop)
      (rest : Follow s.stop shares stop) : Follow s.first (s :: shares) stop

namespace Follow

variable {start stop : Nat} {shares : List Share}

theorem le (h : Follow start shares stop) : start ≤ stop := by
  induction h with
  | nil => exact Nat.le_refl _
  | cons ordered _ ih => exact Nat.le_trans ordered ih

theorem flatMap_cells (h : Follow start shares stop) :
    shares.flatMap cells = List.range' start (stop - start) := by
  induction h with
  | nil => rw [Nat.sub_self, List.range'_zero, List.flatMap_nil]
  | @cons s shares stop ordered rest ih =>
    have size : stop - s.first = (s.stop - s.first) + (stop - s.stop) := by
      have := rest.le
      omega
    rw [List.flatMap_cons, ih, size, ← List.range'_append_1, Nat.add_sub_cancel' ordered, cells]

theorem ordered (h : Follow start shares stop) : ∀ s ∈ shares, s.first ≤ s.stop := by
  induction h with
  | nil => exact fun s absent => absurd absent List.not_mem_nil
  | cons ordered _ ih => exact List.forall_mem_cons.mpr ⟨ordered, ih⟩

/-- No cell belongs to two of the shares. -/
theorem disjoint (h : Follow start shares stop) :
    shares.Pairwise (fun s t => List.Disjoint s.cells t.cells) := by
  have once : (shares.flatMap cells).Nodup := h.flatMap_cells ▸ List.nodup_range'
  exact (List.nodup_flatMap.mp once).2

end Follow

/-- Writes to different cells may come in any order. -/
theorem written_perm {ws vs : List (Symbol × Nat)} (perm : vs.Perm ws)
    (once : (ws.map Prod.snd).Nodup) (cells : Array Symbol) :
    written vs cells = written ws cells := by
  apply perm.foldl_eq'
  rintro ⟨s, c⟩ first ⟨t, d⟩ second cells
  by_cases same : c = d
  · have one := List.inj_on_of_nodup_map once (perm.mem_iff.mp first) (perm.mem_iff.mp second) same
    rw [one]
  · exact Array.setIfInBounds_comm _ _ same

end Share

namespace Layout

variable (rules : Rules) (w : Word) (length i : Nat)

/-- Where a share stops the next one begins. -/
theorem stop_share : ((ofWord rules w).share length i).stop =
    ((ofWord rules w).share length (i + 1)).first := rfl

/-- A share has as many cells as its symbols become. -/
theorem stop_share_eq : ((ofWord rules w).share length i).stop =
    ((ofWord rules w).share length i).first +
      (rules.next ((w.drop (i * length)).take length)).length := by
  rw [stop_share, first_share, first_share, Nat.succ_mul, List.take_add, Rules.next_append,
    List.length_append]

theorem first_le_stop_share :
    ((ofWord rules w).share length i).first ≤ ((ofWord rules w).share length i).stop := by
  rw [stop_share_eq]
  exact Nat.le_add_right _ _

/-- A share writes to its own cells, in order and to each once. -/
theorem map_snd_writes_share :
    (((ofWord rules w).share length i).writes rules).map Prod.snd =
      ((ofWord rules w).share length i).cells := by
  rw [writes_share, List.zipIdx_map_snd, Share.cells, stop_share_eq, first_share,
    Nat.add_sub_cancel_left]

theorem symbols_share : ((ofWord rules w).share length i).symbols rules =
    rules.next ((w.drop (i * length)).take length) := by
  rw [Share.symbols, writes_share, List.zipIdx_map_fst]

/-- The shares of a layout follow each other from the first cell to the last. -/
theorem follow_shares (rules : Rules) (w : Word) {length : Nat} (hl : 0 < length ∨ w = []) :
    Share.Follow 0 ((ofWord rules w).shares length) (ofWord rules w).total := by
  have follow (i count : Nat) : Share.Follow ((ofWord rules w).share length i).first
      ((List.range' i count).map ((ofWord rules w).share length))
      ((ofWord rules w).share length (i + count)).first := by
    induction count generalizing i with
    | zero => exact .nil
    | succ count ih =>
      have rest := ih (i + 1)
      rw [← stop_share, Nat.add_assoc, Nat.add_comm 1] at rest
      exact .cons (first_le_stop_share rules w length i) rest
  have all := follow 0 ((w.length + length - 1) / length)
  rw [first_share, first_share, Nat.zero_add, Nat.zero_mul, ← List.range_eq_range'] at all
  rw [shares, size_placed_ofWord, total_ofWord]
  rcases hl with hl | rfl
  · rwa [List.take_of_length_le (Dividing.le_rounded_up w.length hl)] at all
  · simpa [Rules.next] using all

/-- The body of a symbol ends where the next one begins, or before. -/
theorem cell_add_width_le {rules : Rules} {cell : Nat} {w : Word} {p : Placed}
    (hp : p ∈ placedFrom rules cell w) :
    p.cell + rules.width p.symbol ≤ cell + (rules.next w).length := by
  induction w generalizing cell with
  | nil => cases hp
  | cons s w ih =>
    rw [Rules.next_cons, List.length_append, Rules.length_body]
    rcases List.mem_cons.mp hp with rfl | hp
    · dsimp only
      omega
    · have := ih hp
      omega

theorem placed_within {rules : Rules} {w : Word} {length i : Nat} {p : Placed}
    (hp : p ∈ ((ofWord rules w).share length i).placed) :
    ((ofWord rules w).share length i).first ≤ p.cell ∧
      p.cell + rules.width p.symbol ≤ ((ofWord rules w).share length i).stop := by
  rw [placed_share] at hp
  rw [stop_share_eq, first_share]
  exact ⟨le_cell_of_mem hp, cell_add_width_le hp⟩

end Layout

namespace Slice

/-- A slice that has the symbols and the cells of a share. -/
structure Of (s : Share) (slice : Slice) : Prop where
  placed : slice.placed = s.placed
  base : slice.base = s.first
  size : slice.cells.length = s.stop - s.first

theorem gap?_of_le {stop start : Nat} (h : start ≤ stop) : gap? stop start = some (stop - start) :=
  if_pos h

theorem copy?_append {cells : List Symbol} {body : Word} (size : cells.length = body.length)
    (before after : List Symbol) :
    copy? (before ++ cells ++ after) before.length body = some (before ++ body ++ after) := by
  simp [copy?, ← size]

/-- Bodies that have their cells after others leave those, and what comes behind them, alone. -/
theorem foldlM_place? (rules : Rules) (base : Nat) (w : Word) (before cells after : List Symbol)
    (size : cells.length = (rules.next w).length) :
    (Layout.placedFrom rules (base + before.length) w).foldlM (place? rules base)
      (before ++ cells ++ after) = some (before ++ rules.next w ++ after) := by
  induction w generalizing before cells with
  | nil =>
    rw [List.eq_nil_of_length_eq_zero size]
    rfl
  | cons s w ih =>
    rw [Rules.next_cons, List.length_append] at size
    obtain ⟨own, others, rfl, mine⟩ : ∃ own others, cells = own ++ others ∧
        own.length = (rules.body s).length :=
      ⟨_, _, (List.take_append_drop (rules.body s).length cells).symm,
        by rw [List.length_take]; omega⟩
    have place : place? rules base (before ++ own ++ (others ++ after)) ⟨s, base + before.length⟩ =
        some (before ++ rules.body s ++ (others ++ after)) := by
      rw [place?, gap?_of_le (Nat.le_add_right _ _), Nat.add_sub_cancel_left]
      exact copy?_append mine before (others ++ after)
    have tail : others.length = (rules.next w).length := by
      rw [List.length_append, mine] at size
      omega
    have rest := ih (before ++ rules.body s) others tail
    rw [List.length_append, ← Nat.add_assoc, Rules.length_body] at rest
    simp only [List.append_assoc] at place rest ⊢
    rw [Layout.placedFrom, List.foldlM_cons, place, Option.bind_eq_bind, Option.bind_some, rest,
      Rules.next_cons, List.append_assoc]

/-- A worker has room for all of its symbols, and no cell before the first one of its slice is
asked for. -/
theorem Of.fill? {rules : Rules} {w : Word} {length i : Nat} {slice : Slice}
    (h : slice.Of ((Layout.ofWord rules w).share length i)) :
    slice.fill? rules = some (((Layout.ofWord rules w).share length i).symbols rules) := by
  have size : slice.cells.length =
      (rules.next ((w.drop (i * length)).take length)).length := by
    rw [h.size, Layout.stop_share_eq, Nat.add_sub_cancel_left]
  have filled := foldlM_place? rules slice.base _ [] slice.cells [] size
  simp only [List.length_nil, Nat.add_zero, List.nil_append, List.append_nil] at filled
  rw [Slice.fill?, h.placed, Layout.placed_share, ← Layout.first_share, ← h.base, filled,
    Layout.symbols_share]

/-- Shares that follow each other get what they need of a buffer that is as long as they are, and
nothing of it is left. -/
theorem handOut?_of_follow {start stop : Nat} {shares : List Share}
    (h : Share.Follow start shares stop) (cells : List Symbol)
    (size : cells.length = stop - start) :
    ∃ slices, handOut? start cells shares = some slices ∧ List.Forall₂ Of shares slices ∧
      slices.flatMap Slice.cells = cells := by
  induction h generalizing cells with
  | nil =>
    rw [Nat.sub_self] at size
    rw [List.eq_nil_of_length_eq_zero size]
    exact ⟨[], rfl, .nil, rfl⟩
  | @cons s shares stop ordered rest ih =>
    have enough : s.stop - s.first ≤ cells.length := by
      have := rest.le
      omega
    obtain ⟨slices, handed, each, all⟩ :=
      ih (cells.drop (s.stop - s.first)) (by rw [List.length_drop]; omega)
    refine ⟨⟨s.placed, s.first, cells.take (s.stop - s.first)⟩ :: slices, ?_, .cons ?_ each, ?_⟩
    · rw [handOut?, gap?_of_le ordered, Option.bind_eq_bind, Option.bind_some, if_pos enough,
        handed]
      rfl
    · exact ⟨rfl, rfl, List.length_take_of_le enough⟩
    · rw [List.flatMap_cons, all, List.take_append_drop]

/-- All workers end. -/
theorem mapM_fill? {rules : Rules} {w : Word} {length : Nat} {numbers : List Nat}
    {slices : List Slice}
    (each : List.Forall₂ Of (numbers.map ((Layout.ofWord rules w).share length)) slices) :
    slices.mapM (Slice.fill? rules) =
      some ((numbers.map ((Layout.ofWord rules w).share length)).map (Share.symbols rules)) := by
  induction numbers generalizing slices with
  | nil =>
    cases each
    rfl
  | cons i numbers ih =>
    obtain _ | ⟨own, others⟩ := each
    rw [List.mapM_cons, own.fill?, ih others]
    rfl

end Slice

namespace Rewriter

/-- The shares that a word is divided into follow each other over the whole buffer. -/
theorem follow_shares (r : Rewriter) (rules : Rules) (w : Word) :
    Share.Follow 0 ((Layout.ofWord rules w).shares (r.shareLength w.length))
      (Layout.ofWord rules w).total :=
  Layout.follow_shares rules w (r.divided w)

/-- Each share is handed its cells of the buffer, and every worker ends with them filled. -/
theorem handOut?_shares (r : Rewriter) (rules : Rules) (w : Word) :
    ∃ slices, Slice.handOut? 0 (List.replicate (Layout.ofWord rules w).total 0)
        ((Layout.ofWord rules w).shares (r.shareLength w.length)) = some slices ∧
      List.Forall₂ Slice.Of ((Layout.ofWord rules w).shares (r.shareLength w.length)) slices ∧
      slices.flatMap Slice.cells = List.replicate (Layout.ofWord rules w).total 0 ∧
      slices.mapM (Slice.fill? rules) =
        some (((Layout.ofWord rules w).shares (r.shareLength w.length)).map
          (Share.symbols rules)) := by
  obtain ⟨slices, handed, each, all⟩ := Slice.handOut?_of_follow (r.follow_shares rules w)
    (List.replicate (Layout.ofWord rules w).total 0) List.length_replicate
  exact ⟨slices, handed, each, all, Slice.mapM_fill? each⟩

/-- The slices joined are the next word. -/
theorem rewriteApart?_eq_next (r : Rewriter) (rules : Rules) (w : Word) :
    r.rewriteApart? rules w = some (rules.next w) := by
  obtain ⟨slices, handed, -, -, filled⟩ := r.handOut?_shares rules w
  have whole : (((Layout.ofWord rules w).shares (r.shareLength w.length)).map
      (Share.symbols rules)).flatten = rules.next w := by
    have all := Layout.flatMap_writes_shares rules w (r.divided w)
    rw [← List.zipIdx_map_fst 0 (rules.next w), ← all, List.map_flatMap, List.flatMap_def]
    rfl
  simp only [rewriteApart?, Layout.size_placed_ofWord, handed, Option.bind_eq_bind,
    Option.bind_some, filled]
  exact congrArg some whole

/-- The first of three workers has two symbols that are erased, and no cells. -/
example : (⟨3, 1⟩ : Rewriter).rewriteApart? (Rules.empty.insert 66 []) [66, 66, 65, 65, 66, 67] =
    some [65, 65, 67] := by decide

/-- The cells of the next word are divided among the shares in order, and no cell is in two of them
or in none. Each share stays between its bounds and writes its own cells, so each cell is written
once. When the buffer is cut into slices, no difference falls below zero and no body lacks room,
and the slices joined are the word that one worker alone writes. The shares may be filled in any
order, and even single writes of different shares may come in between one another. -/
theorem shares_write_each_cell_once (r : Rewriter) (rules : Rules) (w : Word) :
    let total := (Layout.ofWord rules w).total
    let shares := (Layout.ofWord rules w).shares (r.shareLength w.length)
    let writes := shares.flatMap (Share.writes rules)
    let blank : Array Symbol := Array.replicate total 0
    (Share.Follow 0 shares total ∧ shares.flatMap Share.cells = List.range total ∧
      shares.Pairwise (fun s t => List.Disjoint s.cells t.cells)) ∧
    (∀ s ∈ shares, s.first ≤ s.stop ∧
      (∀ p ∈ s.placed, s.first ≤ p.cell ∧ p.cell + rules.width p.symbol ≤ s.stop) ∧
      (s.writes rules).map Prod.snd = s.cells) ∧
    (∀ cell < total, (writes.map Prod.snd).count cell = 1) ∧
    (∃ slices, Slice.handOut? 0 blank.toList shares = some slices ∧
      List.Forall₂ Slice.Of shares slices ∧ slices.flatMap Slice.cells = blank.toList ∧
      slices.mapM (Slice.fill? rules) = some (shares.map (Share.symbols rules))) ∧
    r.rewriteApart? rules w = some (alone.rewrite rules w) ∧
    (∀ order : List Share, order.Perm shares →
      (order.foldl (Share.fill rules) blank).toList = alone.rewrite rules w) ∧
    ∀ schedule : List (Symbol × Nat), schedule.Perm writes →
      (Share.written schedule blank).toList = alone.rewrite rules w := by
  intro total shares writes blank
  have follow : Share.Follow 0 shares total := r.follow_shares rules w
  have listed : writes.map Prod.snd = List.range total := by
    have all : writes = (rules.next w).zipIdx := Layout.flatMap_writes_shares rules w (r.divided w)
    have size : total = (rules.next w).length := Layout.total_ofWord rules w
    rw [all, size, List.zipIdx_map_snd, List.range_eq_range']
  have any (schedule : List (Symbol × Nat)) (perm : schedule.Perm writes) :
      (Share.written schedule blank).toList = alone.rewrite rules w := by
    have once : (writes.map Prod.snd).Nodup := listed ▸ List.nodup_range
    have size : blank.size = (rules.next w).length :=
      Array.size_replicate.trans (Layout.total_ofWord rules w)
    rw [Share.written_perm perm once, rewrite_eq_next,
      Layout.written_shares rules w (r.divided w) size]
  refine ⟨⟨follow, ?_, follow.disjoint⟩, ?_, ?_, ?_, ?_, ?_, any⟩
  · rw [follow.flatMap_cells, Nat.sub_zero, List.range_eq_range']
  · intro s hs
    obtain ⟨i, -, rfl⟩ := List.mem_map.mp hs
    exact ⟨Layout.first_le_stop_share .., fun p hp => Layout.placed_within hp,
      Layout.map_snd_writes_share ..⟩
  · intro cell inside
    rw [listed]
    exact List.count_eq_one_of_mem List.nodup_range (List.mem_range.mpr inside)
  · rw [Array.toList_replicate]
    exact r.handOut?_shares rules w
  · rw [rewriteApart?_eq_next, rewrite_eq_next]
  · intro order perm
    rw [Share.foldl_fill]
    exact any _ (perm.flatMap_right _)

end Rewriter

end LSystem
