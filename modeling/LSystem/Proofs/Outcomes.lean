import LSystem.Painter.Round
import LSystem.Proofs.Stops
import LSystem.Proofs.Workers

namespace LSystem

namespace Figure

/-- The word that a figure is drawn from: the one that it has, or the one that it derives. -/
def word (f : Figure) : Word :=
  match f.expansion? with
  | some e => e.word
  | none => Rewriter.alone.expand f.species.system f.depth

/-- An expansion that a figure has is the one that its species and depth derive. -/
def Fresh (f : Figure) : Prop :=
  ∀ e, f.expansion? = some e → e.word = Rewriter.alone.expand f.species.system f.depth

theorem Fresh.word_eq {f : Figure} (h : f.Fresh) :
    f.word = Rewriter.alone.expand f.species.system f.depth := by
  unfold word
  split
  · rename_i e had
    exact h e had
  · rfl

/-- Expanded by itself a figure changes in nothing but the expansion that it keeps. -/
theorem expand_eq (f : Figure) (supply : Supply) :
    ∃ e s, f.expand supply = (e, { f with expansion? := some e }, s) ∧ e.word = f.word := by
  unfold expand word
  cases had : f.expansion? with
  | some e =>
    have same : { f with expansion? := some e } = f := by rw [← had]
    exact ⟨e, supply, by rw [same], rfl⟩
  | none => exact ⟨_, _, rfl, rfl⟩

end Figure

namespace Painter

/-- The segments of the figures that can be drawn, figure by figure. -/
def drawn (os : List (Except Failure (Array Segment))) : List (Array Segment) :=
  os.filterMap Except.toOption

def failed (os : List (Except Failure (Array Segment))) : List Failure :=
  os.filterMap (fun o => match o with
    | .ok _ => none
    | .error failure => some failure)

variable (segments : Array Segment) (failure : Failure) (os : List (Except Failure (Array Segment)))

@[simp] theorem drawn_ok : drawn (.ok segments :: os) = segments :: drawn os := rfl

@[simp] theorem drawn_error : drawn (.error failure :: os) = drawn os := rfl

@[simp] theorem failed_ok : failed (.ok segments :: os) = failed os := rfl

@[simp] theorem failed_error : failed (.error failure :: os) = failure :: failed os := rfl

end Painter

namespace Report

theorem ofOutcomes_cons (o : Except Failure (Array Segment))
    (os : List (Except Failure (Array Segment))) :
    ofOutcomes (o :: os) = (ofOutcome o).append (ofOutcomes os) := by
  rw [ofOutcomes, List.foldl_cons, foldl_append, empty_append]

/-- A report in closed form. -/
theorem ofOutcomes_eq (os : List (Except Failure (Array Segment))) :
    ofOutcomes os = ⟨(Painter.drawn os).length, ((Painter.drawn os).map Array.size).sum,
      Painter.failed os⟩ := by
  induction os with
  | nil => rfl
  | cons o os ih =>
    rw [ofOutcomes_cons, ih]
    cases o with
    | ok segments => simp [append, ofOutcome, Nat.add_comm 1]
    | error failure => simp [append, ofOutcome]

end Report

namespace Painter

theorem outcomes_cons (p : Painter) (first : Nat) (a : Figure × Word) (fs : List (Figure × Word)) :
    p.outcomes first (a :: fs) = p.outcome first a.1 a.2 :: p.outcomes (first + 1) fs := by
  rw [outcomes, List.zipIdx_cons, List.map_cons]
  rfl

/-- A figure's outcome does not depend on the expansion that it keeps beside its word. -/
theorem outcomes_expandAll (p : Painter) (first : Nat) (figures : List Figure) (supply : Supply) :
    p.outcomes first (expandAll figures supply).1 =
      (figures.zipIdx first).map (fun (f, index) => p.outcome index f f.word) := by
  induction figures generalizing first supply with
  | nil => rfl
  | cons f figures ih =>
    obtain ⟨e, s, given, word⟩ := f.expand_eq supply
    simp only [expandAll, given]
    rw [outcomes_cons, ih, List.zipIdx_cons, List.map_cons, word]
    rfl

/-- Figures that cannot be drawn leave the picture as it is. -/
theorem foldl_drawOutcome_eq (draw : Picture → Segment → Picture) (picture : Picture)
    (os : List (Except Failure (Array Segment))) :
    os.foldl (drawOutcome draw) picture =
      ((drawn os).flatMap Array.toList).foldl draw picture := by
  induction os generalizing picture with
  | nil => rfl
  | cons o os ih =>
    rw [List.foldl_cons, ih]
    cases o with
    | ok segments => simp [drawOutcome]
    | error failure => rfl

/-- The segments of the figures that can be walked to the end of their words, in the order of the
figures. -/
def strokes (p : Painter) (figures : List Figure) : List Segment :=
  figures.zipIdx.flatMap (fun (f, index) =>
    match p.turtle.path f.gait (p.source index) f.word with
    | .ok path => path.segments.toList
    | .error _ => [])

theorem drawn_eq_strokes (p : Painter) (figures : List Figure) (supply : Supply) :
    (drawn (p.outcomes 0 (expandAll figures supply).1)).flatMap Array.toList =
      p.strokes figures := by
  rw [outcomes_expandAll, strokes]
  generalize figures.zipIdx = numbered
  induction numbered with
  | nil => rfl
  | cons a numbered ih =>
    obtain ⟨f, index⟩ := a
    rw [List.map_cons, List.flatMap_cons, ← ih]
    simp only [outcome, Turtle.path]
    rcases p.turtle.walk f.gait (p.source index) f.word with ⟨walk, _ | fault⟩ <;> rfl

/-- Figures that cannot be drawn stop nothing. -/
theorem foldlM_drawOutcomeM_eq (draw : Picture → Segment → Option Picture) (picture : Picture)
    (os : List (Except Failure (Array Segment))) :
    os.foldlM (drawOutcomeM draw) picture =
      ((drawn os).flatMap Array.toList).foldlM draw picture := by
  induction os generalizing picture with
  | nil => rfl
  | cons o os ih =>
    rw [List.foldlM_cons]
    cases o with
    | ok segments =>
      rw [drawn_ok, List.flatMap_cons, List.foldlM_append, drawOutcomeM, ← Array.foldlM_toList]
      exact bind_congr ih
    | error failure => exact ih picture

/-- A pass comes to an end exactly when all of its segments can be drawn. -/
theorem paintInOrder?_eq (p : Painter) (mode : Mode) (figures : List Figure) (picture : Picture)
    (supply : Supply) :
    p.paintInOrder? mode figures picture supply =
      if ∀ s ∈ p.strokes figures, picture.extent.Takes s
      then some (p.paintInOrder mode figures picture supply) else none := by
  rw [← p.drawn_eq_strokes figures supply]
  simp only [paintInOrder?, paintInOrder, foldlM_drawOutcomeM_eq, foldl_drawOutcome_eq,
    Picture.foldlM_draw?_eq]
  split <;> rfl

/-- Groups that are drawn one after the other stop where all their figures in order do. -/
theorem foldlM_groups {α β : Type} (step : α → β → Option α) (a : α) (groups : List (List β)) :
    groups.foldlM (fun a group => group.foldlM step a) a = groups.flatten.foldlM step a := by
  induction groups generalizing a with
  | nil => rfl
  | cons group groups ih =>
    rw [List.foldlM_cons, List.flatten_cons, List.foldlM_append]
    exact bind_congr ih

theorem paint?_eq_paintInOrder? (p : Painter) (figures : List Figure) (picture : Picture)
    (supply : Supply) :
    p.paint? figures picture supply = p.paintInOrder? .overwrite figures picture supply := by
  simp only [paint?, paintInOrder?, foldlM_groups, flatten_outcomes, Picture.drawShared?_eq_draw?,
    Report.foldl_parts, Report.empty_append]

end Painter
end LSystem
