import LSystem.Proofs.Alone
import LSystem.Proofs.Holdings
import LSystem.Proofs.Sharing

namespace LSystem

namespace Store

variable {s t : Store} {ks : List Key}

theorem Grows.keys_eq (h : s.Grows ks t) : t.keys = s.keys ∪ ks.toFinset := by
  ext k
  rw [Finset.mem_union, mem_keys, mem_keys, List.mem_toFinset, contains, contains,
    Option.isSome_iff_exists, Option.isSome_iff_exists]
  constructor
  · rintro ⟨e, held⟩
    rcases h.new k e held with old | ⟨asked, -⟩
    · exact Or.inl ⟨e, old⟩
    · exact Or.inr asked
  · rintro (⟨e, old⟩ | asked)
    · exact ⟨e, h.kept k e old⟩
    · exact h.all k asked

/-- Of the keys that a store was asked for those count that it did not hold, each once. -/
theorem Grows.size_eq (h : s.Grows ks t) :
    t.size = s.size + (ks.toFinset.filter (fun k => ¬ s.contains k)).card := by
  have missing : ks.toFinset.filter (fun k => ¬ s.contains k) = ks.toFinset \ s.keys := by
    ext k
    rw [Finset.mem_filter, Finset.mem_sdiff, mem_keys]
  rw [missing, ← card_keys, ← card_keys, h.keys_eq, Finset.union_comm, Nat.add_comm,
    Finset.card_sdiff_add_card]

end Store

namespace Figure

variable {f g h : Figure}

/-- The second is the first with the expansion of its key, its own one if it had one. -/
def Filled (f g : Figure) : Prop :=
  ∃ e, g = { f with expansion? := some e } ∧ e.word = f.key.word ∧
    ∀ own, f.expansion? = some own → e = own

theorem Filled.fresh (filled : f.Filled g) : g.Fresh := by
  obtain ⟨e, rfl, word, -⟩ := filled
  intro own had
  cases had
  exact word

theorem Filled.trans (filled : f.Filled g) (again : g.Filled h) : f.Filled h := by
  obtain ⟨e, rfl, word, own⟩ := filled
  obtain ⟨e', rfl, -, same⟩ := again
  obtain rfl := same e rfl
  exact ⟨e', rfl, word, own⟩

theorem Fresh.filled_expand (fresh : f.Fresh) (supply : Supply) :
    f.Filled (f.expand supply).2.1 := by
  cases had : f.expansion? with
  | some e =>
    have same : { f with expansion? := some e } = f := by rw [← had]
    refine ⟨e, by simp only [expand, had, same], fresh e had, ?_⟩
    intro own mine
    rw [had] at mine
    exact Option.some.inj mine
  | none =>
    refine ⟨_, by simp only [expand, had]; rfl, rfl, ?_⟩
    intro own mine
    rw [had] at mine
    cases mine

theorem Fresh.filled_takeFrom (fresh : f.Fresh) {s t : Store} {figures : List Figure}
    (grows : s.Grows (bareKeys figures) t) (correct : s.Correct) (hf : f ∈ figures) :
    f.Filled (f.takeFrom t) := by
  obtain ⟨e, has, had⟩ := expansion_takeFrom grows correct hf
  refine ⟨e, ?_, ?_, ?_⟩
  · rw [← has]
    rfl
  · exact had.elim (fresh e) id
  · intro own mine
    rw [takeFrom_of_had mine, mine] at has
    exact (Option.some.inj has).symm

theorem Filled.outcome_eq (filled : f.Filled g) (fresh : f.Fresh) (p : Painter) (index : Nat) :
    p.outcome index g g.word = p.outcome index f f.word := by
  have word : g.word = f.word := by
    obtain ⟨e, rfl, word, -⟩ := filled
    rw [fresh.word_eq]
    exact word
  obtain ⟨e, rfl, -⟩ := filled
  rw [word]
  rfl

end Figure

open Figure

variable {figures others more : List Figure}

theorem fresh_of_filled (filled : List.Forall₂ Filled figures others) : ∀ g ∈ others, g.Fresh := by
  induction filled with
  | nil => exact fun g absent => absurd absent List.not_mem_nil
  | cons head _ ih => exact List.forall_mem_cons.mpr ⟨head.fresh, ih⟩

theorem filled_trans (filled : List.Forall₂ Filled figures others)
    (again : List.Forall₂ Filled others more) : List.Forall₂ Filled figures more := by
  induction filled generalizing more with
  | nil => exact again
  | cons head _ ih =>
    cases again with
    | cons next rest => exact .cons (head.trans next) (ih rest)

theorem filled_expandAll (fresh : ∀ f ∈ figures, f.Fresh) (supply : Supply) :
    List.Forall₂ Filled figures ((Painter.expandAll figures supply).1.map Prod.fst) := by
  induction figures generalizing supply with
  | nil => exact .nil
  | cons f figures ih =>
    obtain ⟨head, rest⟩ := List.forall_mem_cons.mp fresh
    exact .cons (head.filled_expand supply) (ih rest _)

namespace Painter

/-- Where figures have their expansions from shows in no outcome. -/
theorem outcomes_of_filled (p : Painter) (first : Nat) (filled : List.Forall₂ Filled figures others)
    (fresh : ∀ f ∈ figures, f.Fresh) (supply supply' : Supply) :
    p.outcomes first (expandAll others supply').1 = p.outcomes first (expandAll figures supply).1 := by
  rw [outcomes_expandAll, outcomes_expandAll]
  induction filled generalizing first with
  | nil => rfl
  | cons head _ ih =>
    obtain ⟨first_fresh, rest⟩ := List.forall_mem_cons.mp fresh
    simp only [List.zipIdx_cons, List.map_cons, head.outcome_eq first_fresh, ih _ rest]

end Painter

/-- Both passes over the figures leave the same picture and the same report, and each leaves all
figures with their expansions, those that could not be drawn as well. -/
structure Pass.Alike (figures : List Figure) (a b : Pass) : Prop where
  picture : a.picture = b.picture
  report : a.report = b.report
  early : List.Forall₂ Filled figures a.figures
  late : List.Forall₂ Filled figures b.figures

namespace Painter

/-- Figures that were filled are drawn as they would be without that. -/
theorem alike_of_filled (p : Painter) (draw : Picture → Segment → Id Picture)
    (filled : List.Forall₂ Filled figures others) (fresh : ∀ f ∈ figures, f.Fresh)
    (picture : Picture) (buffer buffer' : Array Segment) (supply supply' : Supply) :
    Pass.Alike figures
      (p.paintFrom draw 0 others ⟨[], picture, .empty, buffer', supply'⟩).run.pass
      (p.paintFrom draw 0 figures ⟨[], picture, .empty, buffer, supply⟩).run.pass := by
  have outcomes := p.outcomes_of_filled 0 filled fresh supply supply'
  simp only [paintFrom_eq, outcomes, List.nil_append]
  refine ⟨rfl, rfl, ?_, filled_expandAll fresh supply⟩
  exact filled_trans filled (filled_expandAll (fresh_of_filled filled) supply')

/-- Preparation shows in no picture and no report, of a pass of one worker or of one in order, which
expands the figures ahead or each when its turn comes. Either way all figures are expanded after the
pass. The store grows by the keys that it did not hold. -/
theorem prepare_changes_no_drawing {figures : List Figure} (fresh : ∀ f ∈ figures, f.Fresh)
    {store : Store} (correct : store.Correct) (p : Painter) (picture : Picture)
    (supply : Supply) :
    let (prepared, filled, rest) := prepare figures store supply
    (∀ mode, Pass.Alike figures (p.paintInOrder mode prepared picture rest)
      (p.paintInOrder mode figures picture supply)) ∧
    Pass.Alike figures ((p.setWorkers 1).paint prepared picture rest)
      ((p.setWorkers 1).paint figures picture supply) ∧
    (∀ (draw : Picture → Segment → Id Picture) buffer buffer', Pass.Alike figures
      (p.paintFrom draw 0 prepared ⟨[], picture, .empty, buffer', rest⟩).run.pass
      (p.paintFrom draw 0 figures ⟨[], picture, .empty, buffer, supply⟩).run.pass) ∧
    filled.size = store.size +
      ((bareKeys figures).toFinset.filter (fun k => ¬ store.contains k)).card := by
  obtain ⟨t, rest, prepared, grows⟩ := prepare_eq figures store supply
  rw [prepared]
  have filled : List.Forall₂ Filled figures (figures.map (·.takeFrom t)) := by
    rw [List.forall₂_map_right_iff, List.forall₂_same]
    intro f hf
    exact (fresh f hf).filled_takeFrom grows correct hf
  have alike (q : Painter) (draw : Picture → Segment → Id Picture) (buffer buffer') :=
    q.alike_of_filled draw filled fresh picture buffer buffer' supply rest
  have inOrder (q : Painter) (mode : Mode) : Pass.Alike figures
      (q.paintInOrder mode (figures.map (·.takeFrom t)) picture rest)
      (q.paintInOrder mode figures picture supply) := by
    rw [← q.paintFrom_eq_paintInOrder mode _ _ _ #[], ← q.paintFrom_eq_paintInOrder mode _ _ _ #[]]
    exact alike q (Picture.draw mode) #[] #[]
  refine ⟨inOrder p, ?_, alike p, grows.size_eq⟩
  rw [paint_eq_paintInOrder, paint_eq_paintInOrder]
  exact inOrder (p.setWorkers 1) .overwrite

/-- Of four figures one was expanded by itself, one cannot be drawn and has its expansion in the
store, and the store holds nothing yet for the other two, which share a key. -/
theorem prepare_changes_no_drawing_mixed :
    let bare : Figure := ⟨.koch, ⟨0, 0⟩, 0, 1, ⟨1, 0, 0⟩, 1, none⟩
    let own := (bare.expand ⟨0⟩).2.1
    let stray : Species := ⟨"stray", ⟨Word.ofText "F]", .empty⟩, quarterTurn⟩
    let broken := { bare with species := stray }
    let figures := [bare, own, broken, bare]
    let store := ((Store.empty .alone).expand broken.key ⟨1⟩).2.1
    let (prepared, filled, rest) := prepare figures store ⟨2⟩
    (∀ f ∈ figures, f.Fresh) ∧ store.Correct ∧ filled.size = store.size + 1 ∧
      Pass.Alike figures
        (usual.paintInOrder (.blend 0) prepared (.blank ⟨4, 3⟩) rest)
        (usual.paintInOrder (.blend 0) figures (.blank ⟨4, 3⟩) ⟨2⟩) := by
  intro bare own stray broken figures store
  have new {f : Figure} (missing : f.expansion? = none) : f.Fresh := by
    intro e had
    rw [missing] at had
    cases had
  have fresh : ∀ f ∈ figures, f.Fresh := by
    have expanded : own.Fresh := ((new rfl : bare.Fresh).filled_expand ⟨0⟩).fresh
    exact List.forall_mem_cons.mpr ⟨new rfl, List.forall_mem_cons.mpr ⟨expanded,
      List.forall_mem_cons.mpr ⟨new rfl, List.forall_mem_singleton.mpr (new rfl)⟩⟩⟩
  have correct : store.Correct :=
    ((Store.empty .alone).grows_expand broken.key ⟨1⟩).1.correct (Store.empty .alone).correct_clear
  have one : ((bareKeys figures).toFinset.filter (fun k => ¬ store.contains k)).card = 1 := by
    decide
  obtain ⟨inOrder, -, -, size⟩ :=
    prepare_changes_no_drawing fresh correct usual (.blank ⟨4, 3⟩) ⟨2⟩
  rw [one] at size
  exact ⟨fresh, correct, size, inOrder (.blend 0)⟩

end Painter
end LSystem
