import LSystem.Proofs.Effects
import LSystem.Studio.Procedure

namespace LSystem

theorem Extent.not_valid_iff {e : Extent} :
    ¬ e.Valid ↔ e.width = 0 ∨ e.height = 0 ∨ UInt64.size ≤ 4 * e.width * e.height := by
  rw [Valid, area, Nat.mul_assoc, not_and_or, Nat.not_lt, Nat.not_lt, Nat.le_zero,
    Nat.mul_eq_zero, or_assoc]

namespace Studio

variable {s t : Studio} {supply : Supply} {o : Operation} {a : Answer} {error : PictureError}

namespace Procedure

theorem bind_run {α β : Type} (first : Procedure α) (next : α → Procedure β) (s : Studio × Supply) :
    (first >>= next) s =
      match first s with
      | .ok a t => next a t
      | .error error t => .error error t := by
  simp only [bind, EStateM.bind]
  cases first s <;> rfl

theorem get_run (s : Studio × Supply) : (get : Procedure (Studio × Supply)) s = .ok s s := rfl

theorem change_run (f : Studio → Studio) (s : Studio) (supply : Supply) :
    change f (s, supply) = .ok () (f s, supply) := rfl

theorem picture_run (s : Studio) (supply : Supply) :
    picture (s, supply) =
      match s.picture? with
      | some picture => .ok picture (s, supply)
      | none => .error .noPicture (s, supply) := by
  simp only [picture, bind_run, get_run, Studio.picture]
  cases s.picture? <;> rfl

/-- The store is compared with a painter that has its new number of workers already. -/
theorem setWorkers_run (s : Studio) (workers : Nat) (supply : Supply) :
    setWorkers workers (s, supply) = .ok () (s.setWorkers workers, supply) := by
  simp only [setWorkers, bind_run, change_run, get_run, Studio.setWorkers]
  by_cases same : s.store.rewriter.workers = (s.painter.setWorkers workers).workers
  · rw [if_neg (not_not.mpr same), if_pos same]
    rfl
  · rw [if_pos same, if_neg same, change_run]

theorem draw_run (pass : Studio → Picture → Supply → Pass) (s : Studio) (supply : Supply) :
    draw pass (s, supply) =
      match s.picture? with
      | some picture =>
        let pass := pass s picture supply
        .ok pass.report (s.ofPass pass, pass.supply)
      | none => .error .noPicture (s, supply) := by
  simp only [draw, bind_run, picture_run]
  cases s.picture? <;> rfl

end Procedure

/-- The outcome of a procedure that answers as an operation does. -/
def outcome : Answer × Studio × Supply → EStateM.Result PictureError (Studio × Supply) Answer
  | (.refused error, t, rest) => .error error (t, rest)
  | (a, t, rest) => .ok a (t, rest)

/-- Taken step by step, an operation makes what it makes at once. -/
theorem procedure_eq_perform (o : Operation) (s : Studio) (supply : Supply) :
    o.procedure (s, supply) = outcome (s.perform supply o) := by
  cases o with
  | setWorkers workers =>
    simp only [Operation.procedure, Procedure.bind_run, Procedure.setWorkers_run]
    rfl
  | allocate e =>
    simp only [Operation.procedure, Procedure.allocate, Procedure.bind_run,
      Picture.allocate_eq_create, perform, allocate]
    cases Picture.create e <;> rfl
  | load figures => rfl
  | clear =>
    simp only [Operation.procedure, Procedure.clear, Procedure.bind_run, Procedure.get_run,
      Procedure.picture_run, perform, clear]
    cases s.picture? <;> rfl
  | animate => rfl
  | paint =>
    simp only [Operation.procedure, Functor.map, EStateM.map, Procedure.draw_run, perform, paint]
    cases s.picture? <;> rfl
  | paintInOrder mode =>
    simp only [Operation.procedure, Functor.map, EStateM.map, Procedure.draw_run, perform,
      paintInOrder]
    cases s.picture? <;> rfl

/-- There is no picture yet, or the extent is none that a picture can have. -/
theorem Effect.refused_iff (effect : s.Effect o a t) :
    a = .refused error ↔
      (o.NeedsPicture ∧ error = .noPicture ∧ s.picture? = none) ∨
        ∃ e, o = .allocate e ∧ error = .invalidExtent e ∧ ¬ e.Valid := by
  constructor
  · intro refused
    cases effect with
    | withheld needs nothing =>
      cases refused
      exact Or.inl ⟨needs, rfl, nothing⟩
    | @denied e invalid =>
      cases refused
      exact Or.inr ⟨e, rfl, rfl, invalid⟩
    | drawn needs had extent answered => exact absurd refused (answered error)
    | allocated valid | resized workers | loaded grows | still => cases refused
  · intro reason
    rcases reason with ⟨needs, rfl, nothing⟩ | ⟨e, rfl, rfl, invalid⟩
    · cases effect with
      | withheld needs nothing => rfl
      | drawn needs had extent answered =>
        rw [nothing] at had
        cases had
      | denied invalid | allocated valid | resized workers | loaded grows | still => cases needs
    · cases effect with
      | denied invalid => rfl
      | allocated valid => exact absurd valid invalid
      | drawn needs had extent answered | withheld needs nothing => cases needs

/-- A refused operation leaves the studio as it was, and takes no tags. -/
theorem perform_of_refused (refused : (s.perform supply o).1 = .refused error) :
    s.perform supply o = (.refused error, s, supply) := by
  revert refused
  cases o with
  | setWorkers workers | load figures | animate =>
    intro refused
    cases refused
  | allocate e =>
    rw [perform]
    cases s.allocate e <;> intro refused <;> cases refused
    rfl
  | clear =>
    rw [perform]
    cases s.clear <;> intro refused <;> cases refused
    rfl
  | paint =>
    rw [perform]
    cases s.paint supply <;> intro refused <;> cases refused
    rfl
  | paintInOrder mode =>
    rw [perform]
    cases s.paintInOrder mode supply <;> intro refused <;> cases refused
    rfl

theorem outcome_eq_error_iff {r : Answer × Studio × Supply} {t : Studio × Supply} :
    outcome r = .error error t ↔ r = (.refused error, t) := by
  obtain ⟨a, s, supply⟩ := r
  cases a with
  | refused e => simp [outcome, Prod.ext_iff]
  | done | report r => simp [outcome]

/-- Before a picture was granted there is none to read, to clear or to draw on; a picture of no
pixels, or of more samples than 64 bits count, is not granted; nothing else is refused. Whatever is
refused is so before any of its steps have changed the studio. -/
theorem refusals_come_first (settings : Settings) (supply : Supply) (history : List Operation) :
    let granted := (ofSettings settings).granted supply history
    let (s, rest) := (ofSettings settings).run supply history
    (∀ error t, Procedure.picture (s, rest) = .error error t ↔
      error = .noPicture ∧ granted = [] ∧ t = (s, rest)) ∧
    (∀ (o : Operation) error t, o.procedure (s, rest) = .error error t ↔
      ((o.NeedsPicture ∧ error = .noPicture ∧ granted = []) ∨
        ∃ e : Extent, o = .allocate e ∧ error = .invalidExtent e ∧
          (e.width = 0 ∨ e.height = 0 ∨ UInt64.size ≤ 4 * e.width * e.height)) ∧
        t = (s, rest)) ∧
    (∀ o : Operation, o.procedure (s, rest) = outcome (s.perform rest o)) := by
  intro granted
  have expanded := (expanded_ofSettings settings).run supply history
  have extent := extent_run (expanded_ofSettings settings) supply history
  revert expanded extent
  cases (ofSettings settings).run supply history with
  | mk s rest =>
    intro expanded extent
    -- the history shows in the studio: it has a picture as soon as one was granted
    have nothing : s.picture? = none ↔ granted = [] := by
      have first : (ofSettings settings).picture?.map Picture.extent = none := rfl
      rw [← Option.map_eq_none_iff, extent, first, Option.or_none, List.getLast?_eq_none_iff]
    refine ⟨?_, ?_, fun o => procedure_eq_perform o s rest⟩
    · intro error t
      rw [Procedure.picture_run, ← nothing]
      cases s.picture? with
      | none => simp [eq_comm]
      | some picture => simp
    · intro o error t
      have effect := perform_effect expanded rest o
      rw [procedure_eq_perform, outcome_eq_error_iff]
      simp only [← Extent.not_valid_iff, ← nothing]
      rw [← effect.refused_iff]
      constructor
      · intro given
        have refused : (s.perform rest o).1 = .refused error := by rw [given]
        exact ⟨refused, (Prod.mk.inj (given.symm.trans (perform_of_refused refused))).2⟩
      · intro reason
        rw [reason.2]
        exact perform_of_refused reason.1

end Studio
end LSystem
