import LSystem.Proofs.Alone
import LSystem.Proofs.Sharing

namespace LSystem

namespace Picture

theorem extent_foldl_draw (mode : Mode) (segments : List Segment) (p : Picture) :
    (segments.foldl (draw mode) p).extent = p.extent := by
  induction segments generalizing p with
  | nil => rfl
  | cons s segments ih => rw [List.foldl_cons, ih, extent_draw]

end Picture

namespace Painter

/-- Figures that are all expanded stay as they are, and take no tags. -/
theorem expandAll_of_expanded {figures : List Figure} (expanded : ∀ f ∈ figures, f.isExpanded)
    (supply : Supply) :
    expandAll figures supply = (figures.map (fun f => (f, f.word)), supply) := by
  induction figures with
  | nil => rfl
  | cons f figures ih =>
    obtain ⟨e, had⟩ := Option.isSome_iff_exists.mp (expanded f List.mem_cons_self)
    have rest := ih (fun g hg => expanded g (List.mem_cons_of_mem f hg))
    simp only [expandAll, Figure.expand, had, rest, List.map_cons, Figure.word]

/-- A pass over figures that are all expanded changes the picture alone, and not its extent. -/
theorem paintInOrder_of_expanded (p : Painter) (mode : Mode) {figures : List Figure}
    (expanded : ∀ f ∈ figures, f.isExpanded) (picture : Picture) (supply : Supply) :
    let pass := p.paintInOrder mode figures picture supply
    pass.figures = figures ∧ pass.supply = supply ∧ pass.picture.extent = picture.extent := by
  have drawn := expandAll_of_expanded expanded supply
  refine ⟨?_, ?_, ?_⟩
  · rw [paintInOrder, drawn]
    simp [Function.comp_def]
  · rw [paintInOrder, drawn]
  · have segments := foldl_drawOutcome_eq (Picture.draw mode) picture
      (p.outcomes 0 (expandAll figures supply).1)
    exact (congrArg Picture.extent segments).trans (Picture.extent_foldl_draw mode _ picture)

end Painter

namespace Studio

variable {s t : Studio} {o : Operation} {a : Answer}

def Operation.NeedsPicture : Operation → Prop
  | .clear | .paint | .paintInOrder _ => True
  | .setWorkers _ | .allocate _ | .load _ | .animate => False

/-- All figures of the studio have an expansion, so that a pass has none to add. -/
def Expanded (s : Studio) : Prop := ∀ f ∈ s.figures, f.isExpanded

/-- What an operation answers and what it makes of a studio whose figures are all expanded. -/
inductive Effect (s : Studio) : Operation → Answer → Studio → Prop where
  | resized (workers : Nat) : Effect s (.setWorkers workers) .done (s.setWorkers workers)
  | allocated {e : Extent} (valid : e.Valid) :
      Effect s (.allocate e) .done { s with picture? := some (.blank e) }
  | denied {e : Extent} (invalid : ¬ e.Valid) :
      Effect s (.allocate e) (.refused (.invalidExtent e)) s
  | loaded {figures : List Figure} {store : Store}
      (grows : s.store.clear.Grows (Figure.bareKeys figures) store) :
      Effect s (.load figures) .done { s with figures := figures.map (·.takeFrom store), store }
  | still : Effect s .animate .done s
  | drawn {o : Operation} {a : Answer} {before after : Picture} (needs : o.NeedsPicture)
      (had : s.picture? = some before) (extent : after.extent = before.extent)
      (answered : ∀ e, a ≠ .refused e) : Effect s o a { s with picture? := some after }
  | withheld {o : Operation} (needs : o.NeedsPicture) (nothing : s.picture? = none) :
      Effect s o (.refused .noPicture) s

theorem ofPass_eq {pass : Pass} (figures : pass.figures = s.figures) :
    s.ofPass pass = { s with picture? := some pass.picture } := by
  rw [ofPass, figures]

/-- Expanded figures come out of a pass as they went in: it changes the picture only. -/
theorem perform_effect (expanded : s.Expanded) (supply : Supply) (o : Operation) :
    s.Effect o (s.perform supply o).1 (s.perform supply o).2.1 := by
  cases o with
  | setWorkers workers => exact .resized workers
  | allocate e =>
    by_cases valid : e.Valid
    · simp only [perform, allocate, Picture.create, if_pos valid]
      exact .allocated valid
    · simp only [perform, allocate, Picture.create, if_neg valid]
      exact .denied valid
  | load figures =>
    obtain ⟨store, rest, loaded, grows⟩ := s.load_eq figures supply
    simp only [perform, loaded]
    exact .loaded grows
  | clear =>
    cases had : s.picture? with
    | none =>
      simp only [perform, clear, had]
      exact .withheld trivial had
    | some picture =>
      simp only [perform, clear, had]
      exact .drawn trivial had (Picture.extent_clear ..) (by simp)
  | animate => exact .still
  | paint =>
    cases had : s.picture? with
    | none =>
      simp only [perform, paint, had]
      exact .withheld trivial had
    | some picture =>
      obtain ⟨figures, -, extent⟩ :=
        s.painter.paintInOrder_of_expanded .overwrite expanded picture supply
      simp only [perform, paint, had, Painter.paint_eq_paintInOrder, ofPass_eq figures]
      exact .drawn trivial had extent (by simp)
  | paintInOrder mode =>
    cases had : s.picture? with
    | none =>
      simp only [perform, paintInOrder, had]
      exact .withheld trivial had
    | some picture =>
      obtain ⟨figures, -, extent⟩ :=
        s.painter.paintInOrder_of_expanded mode expanded picture supply
      simp only [perform, paintInOrder, had, ofPass_eq figures]
      exact .drawn trivial had extent (by simp)

/-- Every segment that a pass of the studio would draw has its samples in the picture. -/
def Drawable (s : Studio) : Prop :=
  ∀ picture, s.picture? = some picture →
    ∀ stroke ∈ s.painter.strokes s.figures, picture.extent.Takes stroke

/-- An operation does what it does or stops, and it stops in no studio that can be drawn. -/
theorem perform?_cases (s : Studio) (supply : Supply) (o : Operation) :
    s.perform? supply o = some (s.perform supply o) ∨
      s.perform? supply o = none ∧ ¬ s.Drawable := by
  have inOrder (mode : Mode) :
      s.perform? supply (.paintInOrder mode) = some (s.perform supply (.paintInOrder mode)) ∨
        s.perform? supply (.paintInOrder mode) = none ∧ ¬ s.Drawable := by
    simp only [perform?, answer?, perform, paintInOrder]
    cases had : s.picture? with
    | none => exact Or.inl rfl
    | some picture =>
      simp only [Painter.paintInOrder?_eq]
      by_cases all : ∀ stroke ∈ s.painter.strokes s.figures, picture.extent.Takes stroke
      · exact Or.inl (by rw [if_pos all, Option.map_some])
      · exact Or.inr ⟨by rw [if_neg all, Option.map_none], fun drawable => all (drawable _ had)⟩
  cases o with
  | paint =>
    have checked : s.perform? supply .paint = s.perform? supply (.paintInOrder .overwrite) := by
      simp only [perform?, Painter.paint?_eq_paintInOrder?]
    have plain : s.perform supply .paint = s.perform supply (.paintInOrder .overwrite) := by
      simp only [perform, paint, paintInOrder, Painter.paint_eq_paintInOrder]
    rw [checked, plain]
    exact inOrder .overwrite
  | paintInOrder mode => exact inOrder mode
  | setWorkers workers | allocate e | load figures | clear | animate => exact Or.inl rfl

/-- What holds of every run holds of those that come to an end. -/
theorem run_of_run? {supply : Supply} {history : List Operation} {end' : Studio × Supply}
    (done : s.run? supply history = some end') : s.run supply history = end' := by
  induction history generalizing s supply with
  | nil => exact Option.some.inj done
  | cons o history ih =>
    rw [run?] at done
    rcases s.perform?_cases supply o with goes | ⟨stops, -⟩
    · rw [goes] at done
      exact ih done
    · rw [stops] at done
      cases done

theorem Effect.expanded (effect : s.Effect o a t) (expanded : s.Expanded) : t.Expanded := by
  cases effect with
  | @loaded figures store grows =>
    intro g hg
    obtain ⟨f, hf, rfl⟩ := List.mem_map.mp hg
    exact Figure.isExpanded_takeFrom grows s.store.correct_clear hf
  | _ => exact expanded

theorem expanded_ofSettings (settings : Settings) : (ofSettings settings).Expanded := by
  intro f hf
  cases hf

theorem Expanded.run (expanded : s.Expanded) (supply : Supply) (history : List Operation) :
    (s.run supply history).1.Expanded := by
  induction history generalizing s supply with
  | nil => exact expanded
  | cons o history ih => exact ih ((perform_effect expanded supply o).expanded expanded) _

/-- The extent of a picture that was asked for and granted. -/
def granted? : Operation × Answer → Option Extent
  | (.allocate e, .done) => some e
  | _ => none

/-- The extents of all pictures that were granted, in order. -/
def granted (s : Studio) (supply : Supply) (history : List Operation) : List Extent :=
  (s.log supply history).filterMap granted?

theorem granted_cons (s : Studio) (supply : Supply) (o : Operation) (history : List Operation) :
    s.granted supply (o :: history) =
      (granted? (o, (s.perform supply o).1)).toList ++
        (s.perform supply o).2.1.granted (s.perform supply o).2.2 history := by
  rw [granted, granted, log, List.filterMap_cons]
  cases granted? (o, (s.perform supply o).1) <;> rfl

theorem granted?_of_needsPicture (needs : o.NeedsPicture) (a : Answer) :
    granted? (o, a) = none := by
  cases o with
  | clear | paint | paintInOrder mode => rfl
  | setWorkers workers | allocate e | load figures | animate => cases needs

/-- A picture has the extent that was granted last. -/
theorem Effect.extent (effect : s.Effect o a t) :
    t.picture?.map Picture.extent = (granted? (o, a)).or (s.picture?.map Picture.extent) := by
  cases effect with
  | drawn needs had extent answered =>
    rw [granted?_of_needsPicture needs, had]
    simp [extent]
  | withheld needs nothing => rw [granted?_of_needsPicture needs, Option.none_or]
  | allocated valid => rfl
  | resized workers | denied invalid | loaded grows | still => rfl

theorem extent_run (expanded : s.Expanded) (supply : Supply) (history : List Operation) :
    (s.run supply history).1.picture?.map Picture.extent =
      (s.granted supply history).getLast?.or (s.picture?.map Picture.extent) := by
  induction history generalizing s supply with
  | nil => rfl
  | cons o history ih =>
    have effect := perform_effect expanded supply o
    rw [run, ih (effect.expanded expanded), effect.extent, granted_cons, List.getLast?_append,
      ← Option.or_assoc]
    cases granted? (o, (s.perform supply o).1) <;> rfl

end Studio
end LSystem
