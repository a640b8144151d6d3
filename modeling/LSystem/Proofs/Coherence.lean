import LSystem.Proofs.Effects

namespace LSystem

namespace Studio

variable {settings : Settings} {s t : Studio} {o : Operation} {a : Answer} {n : Nat}

/-- An expansion that a loaded figure comes with is that of its species and depth. -/
def Operation.Fresh : Operation → Prop
  | .load figures => ∀ f ∈ figures, f.Fresh
  | .setWorkers _ | .allocate _ | .clear | .animate | .paint | .paintInOrder _ => True

/-- The parts of a studio agree with its settings, and these with the ones that it began with but
for the number of workers. What is expanded is expanded rightly, and nothing is held but for the
figures. -/
structure Coherent (settings : Settings) (s : Studio) : Prop where
  settings : ∃ workers, s.settings = { settings with workers }
  painter : s.painter = (ofSettings s.settings).painter
  rewriter : s.store.rewriter = .ofWorkers s.settings.workers
  figures : ∀ f ∈ s.figures, ∃ e, f.expansion? = some e ∧ e.word = f.key.word
  held : ∀ k e, s.store.find? k = some e → e.word = k.word ∧ ∃ f ∈ s.figures, f.key = k

theorem coherent_ofSettings (settings : Settings) : Coherent settings (ofSettings settings) := by
  refine ⟨⟨settings.workers, rfl⟩, rfl, ?_, ?_, ?_⟩
  · simp [ofSettings, Store.empty, Painter.ofWorkers, Rewriter.ofWorkers]
  · intro f hf
    cases hf
  · intro k e held
    cases held

theorem Coherent.expanded (coherent : Coherent settings s) : s.Expanded := by
  intro f hf
  obtain ⟨e, had, -⟩ := coherent.figures f hf
  simp [Figure.isExpanded, had]

/-- A store of another size holds nothing; the figures keep what they have. -/
theorem Coherent.setWorkers (coherent : Coherent settings s) (workers : Nat) :
    Coherent settings (s.setWorkers workers) := by
  obtain ⟨before, given⟩ := coherent.settings
  refine ⟨⟨workers, by simp [Studio.setWorkers, given]⟩, ?_, ?_, coherent.figures, ?_⟩
  · simp [Studio.setWorkers, coherent.painter, ofSettings, Painter.setWorkers, Painter.ofWorkers]
  · simp only [Studio.setWorkers]
    split
    · rename_i same
      rw [coherent.rewriter] at same ⊢
      simpa [Rewriter.ofWorkers, Painter.setWorkers] using same
    · simp [Store.empty, Rewriter.ofWorkers, Painter.setWorkers]
  · intro k e held
    simp only [Studio.setWorkers] at held
    split at held
    · exact coherent.held k e held
    · cases held

theorem Coherent.load (coherent : Coherent settings s) {figures : List Figure} {store : Store}
    (grows : s.store.clear.Grows (Figure.bareKeys figures) store) (fresh : ∀ f ∈ figures, f.Fresh) :
    Coherent settings { s with figures := figures.map (·.takeFrom store), store } := by
  refine ⟨coherent.settings, coherent.painter, ?_, ?_, ?_⟩
  · exact grows.rewriter.trans coherent.rewriter
  · intro g hg
    obtain ⟨f, hf, rfl⟩ := List.mem_map.mp hg
    obtain ⟨e, has, had | word⟩ := Figure.expansion_takeFrom grows s.store.correct_clear hf
    · exact ⟨e, has, fresh f hf e had⟩
    · exact ⟨e, has, word⟩
  · intro k e held
    rcases grows.new k e held with old | ⟨asked, word⟩
    · cases old
    · obtain ⟨f, hf, -, key⟩ := Figure.mem_bareKeys.mp asked
      exact ⟨word, f.takeFrom store, List.mem_map_of_mem hf, key⟩

theorem Effect.coherent (effect : s.Effect o a t) (coherent : Coherent settings s)
    (fresh : o.Fresh) : Coherent settings t := by
  cases effect with
  | resized workers => exact coherent.setWorkers workers
  | loaded grows => exact coherent.load grows fresh
  | allocated valid | drawn needs had extent answered =>
    exact ⟨coherent.settings, coherent.painter, coherent.rewriter, coherent.figures, coherent.held⟩
  | denied invalid | still | withheld needs nothing => exact coherent

theorem Coherent.run (coherent : Coherent settings s) (supply : Supply) {history : List Operation}
    (fresh : ∀ o ∈ history, o.Fresh) : Coherent settings (s.run supply history).1 := by
  induction history generalizing s supply with
  | nil => exact coherent
  | cons o history ih =>
    have effect := perform_effect coherent.expanded supply o
    refine ih (effect.coherent coherent (fresh o List.mem_cons_self)) _ ?_
    exact fun o ho => fresh o (List.mem_cons_of_mem _ ho)

/-- Only loading changes the figures. The store is changed by loading, and by another number of
workers, which leaves the figures as they are. -/
theorem Effect.changes (effect : s.Effect o a t) (workers : s.store.rewriter.workers = n) :
    (t.figures ≠ s.figures → ∃ figures, o = .load figures) ∧
    (t.store ≠ s.store → (∃ figures, o = .load figures) ∨
      ∃ m, o = .setWorkers m ∧ max m 1 ≠ n ∧ t.figures = s.figures) := by
  cases effect with
  | resized m =>
    refine ⟨fun changed => absurd rfl changed, fun changed => Or.inr ⟨m, rfl, ?_, rfl⟩⟩
    intro same
    exact changed (if_pos (workers.trans same.symm))
  | @loaded figures store grows => exact ⟨fun _ => ⟨figures, rfl⟩, fun _ => Or.inl ⟨figures, rfl⟩⟩
  | allocated valid | denied invalid | still | drawn needs had extent answered
  | withheld needs nothing =>
    exact ⟨fun changed => absurd rfl changed, fun changed => absurd rfl changed⟩

/-- Whatever is done with a studio, its parts agree. The painter and the store have as many workers
as the settings say, and nothing else is ever set. The figures have their expansions, and the store
holds no others. The picture has the extent that was granted last. -/
theorem parts_agree_along_runs (settings : Settings) (supply : Supply) (history : List Operation)
    (fresh : ∀ o ∈ history, o.Fresh) :
    let (s, rest) := (ofSettings settings).run supply history
    (∃ workers, s.settings = { settings with workers }) ∧
    s.painter.workers = max s.settings.workers 1 ∧
    s.store.rewriter.workers = max s.settings.workers 1 ∧
    s.painter.turtle = .usual s.settings.walk ∧ s.painter.seed = s.settings.seed ∧
    (∀ f ∈ s.figures, ∃ e, f.expansion? = some e ∧
      ∀ r : Rewriter, e.word = r.expand f.species.system f.depth) ∧
    (∀ k e, (k, e) ∈ s.store.entries →
      (∀ r : Rewriter, e.word = r.expand k.system k.depth) ∧ ∃ f ∈ s.figures, f.key = k) ∧
    s.picture?.map Picture.extent = ((ofSettings settings).granted supply history).getLast? ∧
    (∀ p, s.picture? = some p → p.samples.size = 4 * p.extent.width * p.extent.height) ∧
    ∀ o, let t := (s.perform rest o).2.1
      (t.figures ≠ s.figures → ∃ figures, o = .load figures) ∧
      (t.store ≠ s.store → (∃ figures, o = .load figures) ∨
        ∃ workers, o = .setWorkers workers ∧
          max workers 1 ≠ max s.settings.workers 1 ∧ t.figures = s.figures) := by
  have coherent := (coherent_ofSettings settings).run supply fresh
  have extent := extent_run (expanded_ofSettings settings) supply history
  revert coherent extent
  cases (ofSettings settings).run supply history with
  | mk s rest =>
    intro coherent extent
    have workers : s.store.rewriter.workers = max s.settings.workers 1 := by
      rw [coherent.rewriter, Rewriter.ofWorkers]
    refine ⟨coherent.settings, ?_, workers, ?_, ?_, ?_, ?_, ?_, ?_, ?_⟩
    · rw [coherent.painter]; rfl
    · rw [coherent.painter]; rfl
    · rw [coherent.painter]; rfl
    · intro f hf
      obtain ⟨e, had, word⟩ := coherent.figures f hf
      exact ⟨e, had, fun r => word.trans (r.expand_eq_word f.key).symm⟩
    · intro k e here
      obtain ⟨word, bound⟩ := coherent.held k e (Store.find?_eq_some_iff.mpr here)
      exact ⟨fun r => word.trans (r.expand_eq_word k).symm, bound⟩
    · rw [extent]
      exact Option.or_none
    · intro p _
      rw [p.size_eq, Extent.area, Nat.mul_assoc]
    · intro o
      exact (perform_effect coherent.expanded rest o).changes workers

/-- A curve that was expanded by itself is loaded with one that was not, before and after the number
of workers changes, and a second picture is refused. -/
theorem parts_agree_along_runs_resized :
    let bare : Figure := ⟨.koch, ⟨0, 0⟩, 0, 1, ⟨1, 0, 0⟩, 1, none⟩
    let own := (bare.expand ⟨0⟩).2.1
    let history := [.load [own, bare], .allocate ⟨2, 3⟩, .setWorkers 0, .paint, .load [bare],
      .allocate ⟨0, 5⟩]
    let (s, _) := (ofSettings .usual).run ⟨1⟩ history
    s.painter.workers = max s.settings.workers 1 ∧
    s.store.rewriter.workers = max s.settings.workers 1 ∧
    s.picture?.map Picture.extent = some ⟨2, 3⟩ := by
  intro bare own history
  have unexpanded : bare.Fresh := by
    intro e had
    cases had
  have expanded : own.Fresh := by
    intro e had
    cases had
    rfl
  have fresh : ∀ o ∈ history, o.Fresh := by
    simp [history, Operation.Fresh, unexpanded, expanded]
  obtain ⟨-, painter, store, -, -, -, -, extent, -, -⟩ :=
    parts_agree_along_runs .usual ⟨1⟩ history fresh
  exact ⟨painter, store, extent⟩

end Studio
end LSystem
