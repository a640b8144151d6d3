import LSystem.Proofs.Freshness
import LSystem.Proofs.Outcomes

namespace LSystem

/-- Whatever happens in a garden, its figures stay fresh. -/
theorem Garden.fresh_run (rewriter : Rewriter) (history : List Event) :
    ∀ f ∈ ((bare rewriter).run history).figures, f.Fresh := by
  intro f hf e had
  obtain ⟨i, here⟩ := List.mem_iff_getElem?.mp hf
  exact ((sound_bare rewriter).run history).word f.key e (.figure here had)

/-- What a round leaves, but for its buffer. -/
def Round.pass (r : Round) : Pass := ⟨r.figures, r.picture, r.report, r.supply⟩

namespace Painter

/-- What comes of a figure by itself: its own word is derived, and walked with a source that
nothing was taken from. -/
def sketch (p : Painter) (index : Nat) (f : Figure) : Except Fault Path :=
  let source :=
    if p.turtle.settings.jitter then some (Generator.ofSeed (p.seed ^^^ UInt64.ofNat index))
    else none
  p.turtle.path f.gait source (Rewriter.alone.expand f.species.system f.depth)

/-- The paths of the figures that can be walked. -/
def paths (p : Painter) (figures : List Figure) : List Path :=
  figures.zipIdx.filterMap (fun (f, index) => (p.sketch index f).toOption)

def failures (p : Painter) (figures : List Figure) : List Failure :=
  figures.zipIdx.filterMap (fun (f, index) =>
    match p.sketch index f with
    | .ok _ => none
    | .error fault => some ⟨index, f.species.name, fault⟩)

/-- The outcome of a figure by itself. -/
def outcomeAlone (p : Painter) (index : Nat) (f : Figure) : Except Failure (Array Segment) :=
  match p.sketch index f with
  | .ok path => .ok path.segments
  | .error fault => .error ⟨index, f.species.name, fault⟩

theorem outcome_eq_alone (p : Painter) (index : Nat) {f : Figure} (fresh : f.Fresh) :
    p.outcome index f f.word = p.outcomeAlone index f := by
  rw [fresh.word_eq, outcome, outcomeAlone, sketch, Turtle.path, source]
  rcases p.turtle.walk f.gait _ _ with ⟨walk, _ | fault⟩
  · rfl
  · rfl

/-- Nothing that happened to a figure, or to those before it, shows in its outcome. -/
theorem outcomes_eq_alone (p : Painter) {figures : List Figure} (fresh : ∀ f ∈ figures, f.Fresh)
    (supply : Supply) :
    p.outcomes 0 (expandAll figures supply).1 =
      figures.zipIdx.map (fun (f, index) => p.outcomeAlone index f) := by
  rw [outcomes_expandAll]
  apply List.map_congr_left
  rintro ⟨f, index⟩ hf
  exact p.outcome_eq_alone index (fresh f (List.fst_mem_of_mem_zipIdx hf))

theorem drawn_alone (p : Painter) (figures : List Figure) :
    drawn (figures.zipIdx.map (fun (f, index) => p.outcomeAlone index f)) =
      (p.paths figures).map Path.segments := by
  rw [drawn, paths, List.filterMap_map, List.map_filterMap]
  congr 1
  funext ⟨f, index⟩
  simp only [Function.comp_apply, outcomeAlone]
  cases p.sketch index f <;> rfl

theorem failed_alone (p : Painter) (figures : List Figure) :
    failed (figures.zipIdx.map (fun (f, index) => p.outcomeAlone index f)) =
      p.failures figures := by
  rw [failed, failures, List.filterMap_map]
  congr 1
  funext ⟨f, index⟩
  simp only [Function.comp_apply, outcomeAlone]
  cases p.sketch index f <;> rfl

/-- What the buffer held has no part in what it holds after the next walk. -/
theorem trace_eq (p : Painter) (index : Nat) (f : Figure) (w : Word) (buffer : Array Segment) :
    p.trace index f w buffer =
      match p.outcome index f w with
      | .ok segments => (none, segments)
      | .error failure => (some failure, #[]) := by
  have start : { Walk.start f.gait (p.source index) with segments := buffer.shrink 0 } =
      Walk.start f.gait (p.source index) := by simp [Walk.start]
  rw [trace, outcome, start, Turtle.walk]
  rcases p.turtle.follow f.gait _ w with ⟨walk, _ | fault⟩
  · rfl
  · simp

section Round

variable {m : Type → Type} [Monad m] [LawfulMonad m]

/-- A turn adds the outcome of its figure to the round. -/
theorem pass_paintNext (p : Painter) (draw : Picture → Segment → m Picture) (index : Nat)
    {f g : Figure} {e : Expansion} {r : Round} {supply : Supply}
    (given : f.expand r.supply = (e, g, supply)) :
    let o := p.outcome index g e.word
    Round.pass <$> p.paintNext draw index f r =
      (fun picture => ⟨r.figures ++ [g], picture, r.report.append (.ofOutcome o), supply⟩) <$>
        drawOutcomeM draw r.picture o := by
  simp only [paintNext, given, trace_eq]
  cases p.outcome index g e.word with
  | ok segments => simp [Round.pass, drawOutcomeM, Report.append, Report.ofOutcome]
  | error failure => simp [Round.pass, drawOutcomeM, Report.append, Report.ofOutcome]

/-- What a pass over some figures adds to the pass before it. -/
def goOn (p : Painter) (draw : Picture → Segment → m Picture) (index : Nat)
    (figures : List Figure) (before : Pass) : m Pass :=
  let drawn := expandAll figures before.supply
  let outcomes := p.outcomes index drawn.1
  (fun picture => ⟨before.figures ++ drawn.1.map Prod.fst, picture,
    before.report.append (.ofOutcomes outcomes), drawn.2⟩) <$>
      outcomes.foldlM (drawOutcomeM draw) before.picture

/-- A round over some figures adds what a pass over them does. -/
theorem pass_paintFrom (p : Painter) (draw : Picture → Segment → m Picture) (index : Nat)
    (figures : List Figure) (r : Round) :
    Round.pass <$> p.paintFrom draw index figures r = p.goOn draw index figures r.pass := by
  induction figures generalizing index r with
  | nil => simp [paintFrom, goOn, Round.pass, expandAll, outcomes, Report.ofOutcomes]
  | cons f figures ih =>
    cases given : f.expand r.supply with
    | mk e rest =>
      calc Round.pass <$> p.paintFrom draw index (f :: figures) r
          = p.paintNext draw index f r >>=
              fun t => Round.pass <$> p.paintFrom draw (index + 1) figures t := by
            rw [paintFrom, map_bind]
        _ = (Round.pass <$> p.paintNext draw index f r) >>= p.goOn draw (index + 1) figures := by
            rw [bind_map_left]
            exact bind_congr (ih (index + 1))
        _ = p.goOn draw index (f :: figures) r.pass := by
            rw [p.pass_paintNext draw index given, bind_map_left]
            simp [goOn, Round.pass, expandAll, given, outcomes_cons, Report.ofOutcomes_cons,
              Report.append_assoc]

end Round

theorem run_foldlM_drawOutcomeM (draw : Picture → Segment → Id Picture) (picture : Picture)
    (os : List (Except Failure (Array Segment))) :
    (os.foldlM (drawOutcomeM draw) picture).run = os.foldl (drawOutcome draw) picture := by
  have each (picture : Picture) (o : Except Failure (Array Segment)) :
      (drawOutcomeM draw picture o).run = drawOutcome draw picture o := by
    cases o with
    | ok segments => rfl
    | error failure => rfl
  rw [List.idRun_foldlM, funext₂ each]

/-- A round that cannot stop adds what a pass over its figures leaves. -/
theorem paintFrom_eq (p : Painter) (draw : Picture → Segment → Id Picture) (index : Nat)
    (figures : List Figure) (r : Round) :
    let drawn := expandAll figures r.supply
    let outcomes := p.outcomes index drawn.1
    (p.paintFrom draw index figures r).run.pass =
      ⟨r.figures ++ drawn.1.map Prod.fst, outcomes.foldl (drawOutcome draw) r.picture,
        r.report.append (.ofOutcomes outcomes), drawn.2⟩ := by
  refine (congrArg Id.run (p.pass_paintFrom draw index figures r)).trans ?_
  rw [goOn, Id.run_map, run_foldlM_drawOutcomeM]
  rfl

/-- One buffer for all figures of a pass does as well as one for each. -/
theorem paintFrom_eq_paintInOrder (p : Painter) (mode : Mode) (figures : List Figure)
    (picture : Picture) (supply : Supply) (buffer : Array Segment) :
    (p.paintFrom (m := Id) (Picture.draw mode) 0 figures
      ⟨[], picture, .empty, buffer, supply⟩).run.pass =
      p.paintInOrder mode figures picture supply := by
  rw [paintFrom_eq, Report.empty_append]
  rfl

/-- The buffer makes no difference to a pass that may stop. -/
theorem paintFrom_eq_paintInOrder? (p : Painter) (mode : Mode) (figures : List Figure)
    (picture : Picture) (supply : Supply) (buffer : Array Segment) :
    Round.pass <$> p.paintFrom (Picture.draw? mode) 0 figures
      ⟨[], picture, .empty, buffer, supply⟩ = p.paintInOrder? mode figures picture supply := by
  rw [pass_paintFrom, goOn, map_eq_pure_bind]
  simp only [Round.pass, Report.empty_append, List.nil_append]
  rfl

theorem drawShared_eq_overwrite : Picture.drawShared = Picture.draw .overwrite := by
  funext picture s
  exact picture.drawShared_eq_draw s

/-- Groups that are drawn one after the other are drawn as one. -/
theorem paint_eq_paintInOrder (p : Painter) (figures : List Figure) (picture : Picture)
    (supply : Supply) :
    p.paint figures picture supply = p.paintInOrder .overwrite figures picture supply := by
  have drawn : (p.paint figures picture supply).picture =
      (p.paintInOrder .overwrite figures picture supply).picture := by
    rw [picture_paint, picture_paintInOrder]
  have told := p.report_paint figures picture supply
  exact (Pass.mk.injEq ..).mpr ⟨rfl, drawn, told, rfl⟩

/-- A pass draws the figures in order, each as it is drawn alone, and leaves out those that cannot
be walked; it reports them, with what stopped them. A single worker does the same. There is no pass
if and only if one of the segments has a pixel without samples, and none that ends inside has. -/
theorem paints_each_figure_alone {figures : List Figure} (fresh : ∀ f ∈ figures, f.Fresh)
    (p : Painter) (picture : Picture) (supply : Supply) :
    let segments := (p.paths figures).flatMap (fun path => path.segments.toList)
    let report : Report := ⟨(p.paths figures).length, segments.length, p.failures figures⟩
    (∀ mode, let pass? := p.paintInOrder? mode figures picture supply
      pass?.map (fun pass => (pass.picture, pass.report)) =
          (segments.foldlM (Picture.draw? mode) picture).map (·, report) ∧
        (pass?.isSome ↔ ∀ s ∈ segments, picture.extent.Takes s) ∧
        ∀ buffer, Round.pass <$> p.paintFrom (Picture.draw? mode) 0 figures
          ⟨[], picture, .empty, buffer, supply⟩ = pass?) ∧
      ((p.setWorkers 1).paint? figures picture supply =
          p.paintInOrder? .overwrite figures picture supply ∧
        ∀ buffer, Round.pass <$> p.paintFrom Picture.drawShared? 0 figures
          ⟨[], picture, .empty, buffer, supply⟩ = (p.setWorkers 1).paint? figures picture supply) ∧
      (picture.extent.Valid → ∀ s ∈ segments,
        picture.extent.Inside (picture.extent.toPixel s.start) →
          picture.extent.Inside (picture.extent.toPixel s.stop) → picture.extent.Takes s) := by
  intro segments report
  have outcomes := p.outcomes_eq_alone fresh supply
  have strokes : p.strokes figures = segments := by
    rw [← p.drawn_eq_strokes figures supply, outcomes, drawn_alone, List.flatMap_map]
  have pictured (mode : Mode) : (p.paintInOrder mode figures picture supply).picture =
      segments.foldl (Picture.draw mode) picture := by
    simp only [paintInOrder, outcomes, foldl_drawOutcome_eq, drawn_alone, List.flatMap_map,
      segments]
  have reported (mode : Mode) : (p.paintInOrder mode figures picture supply).report = report := by
    simp only [paintInOrder, outcomes, Report.ofOutcomes_eq, drawn_alone, failed_alone,
      List.length_map, List.map_map, report, segments, List.length_flatMap, Array.length_toList,
      Function.comp_def]
  have alone : (p.setWorkers 1).paint? figures picture supply =
      p.paintInOrder? .overwrite figures picture supply := paint?_eq_paintInOrder? ..
  refine ⟨fun mode => ⟨?_, ?_, ?_⟩, ⟨alone, ?_⟩, ?_⟩
  · rw [paintInOrder?_eq, strokes, Picture.foldlM_draw?_eq]
    split
    · simp only [Option.map_some, pictured, reported]
    · rfl
  · rw [paintInOrder?_eq, strokes]
    split <;> simp_all
  · exact p.paintFrom_eq_paintInOrder? mode figures picture supply
  · rw [alone, Picture.drawShared?_eq_draw?]
    exact p.paintFrom_eq_paintInOrder? .overwrite figures picture supply
  · intro valid s _ start stop
    exact Extent.takes_of_ends valid start stop

/-- A figure that closes a branch too many stands between two that are still to be expanded; it
is left out, with the two segments before its fault. A picture whose last pixel is rounded past its
side has no pass over a stroke at that end, and so no report of a figure that cannot be walked. -/
theorem paints_each_figure_alone_stray :
    let stray : Species := ⟨"stray", ⟨Word.ofText "F+F]F", .empty⟩, quarterTurn⟩
    let plant (species : Species) : Garden.Event := .plant species ⟨0, 0⟩ 0 1 ⟨1, 0, 0⟩ 1
    let history := [plant .koch, plant stray, plant .fern, .ask 1 .own]
    let figures := ((Garden.bare .alone).run history).figures
    let p : Painter := { Painter.usual with turtle := .usual ⟨8, true⟩, seed := 5 }
    let stroke : Figure := ⟨⟨"stroke", ⟨Word.ofText "F", .empty⟩, 0⟩, ⟨1, 0⟩, 0, 1, ⟨1, 0, 0⟩, 0, none⟩
    let wide := Picture.blank ⟨2 ^ 24 + 4, 1⟩
    (∀ f ∈ figures, f.Fresh) ∧ figures.map Figure.isExpanded = [false, true, false] ∧
      (∃ pass, p.paintInOrder? (.blend 0) figures (Picture.blank ⟨4, 3⟩) ⟨1⟩ = some pass ∧
        pass.report.failures = [⟨1, "stray", .nothingSaved 3⟩] ∧
        ((p.paths figures).flatMap (fun path => path.segments.toList)).foldlM
          (Picture.draw? (.blend 0)) (Picture.blank ⟨4, 3⟩) = some pass.picture) ∧
      Painter.usual.paintInOrder? .overwrite [stroke, { stroke with species := stray }] wide ⟨0⟩ =
        none := by
  intro stray plant history figures p stroke wide
  have fresh : ∀ f ∈ figures, f.Fresh := Garden.fresh_run .alone history
  refine ⟨fresh, rfl, ?_, ?_⟩
  · obtain ⟨passes, -, inside⟩ := paints_each_figure_alone fresh p (Picture.blank ⟨4, 3⟩) ⟨1⟩
    obtain ⟨drawn, ends, -⟩ := passes (.blend 0)
    have sound : (⟨4, 3⟩ : Extent).Sound := by decide
    obtain ⟨pass, comes⟩ := Option.isSome_iff_exists.mp (ends.mpr (fun s hs =>
      inside (by decide) s hs (Extent.inside_toPixel sound _) (Extent.inside_toPixel sound _)))
    have failures : p.failures figures = [⟨1, "stray", .nothingSaved 3⟩] := by decide +kernel
    rw [comes, Option.map_some] at drawn
    obtain ⟨picture, same, given⟩ := Option.map_eq_some_iff.mp drawn.symm
    obtain ⟨rfl, report⟩ := Prod.mk.inj given
    exact ⟨pass, comes, by rw [← report, failures], same⟩
  · have bare : ∀ f ∈ [stroke, { stroke with species := stray }], f.Fresh := by
      intro f hf e had
      rcases List.mem_pair.mp hf with rfl | rfl <;> cases had
    obtain ⟨passes, -, -⟩ := paints_each_figure_alone bare .usual wide ⟨0⟩
    obtain ⟨-, ends, -⟩ := passes .overwrite
    rw [← Option.not_isSome_iff_eq_none, ends]
    intro all
    have valid : wide.extent.Valid := by decide
    obtain ⟨s, drawn, start⟩ : ∃ s ∈ (Painter.usual.paths
        [stroke, { stroke with species := stray }]).flatMap (fun path => path.segments.toList),
          s.start = ⟨1, 0⟩ := by
      decide +kernel
    have first : wide.extent.toPixel s.start ∈ wide.extent.line s :=
      start_mem_line (Extent.plain_toPixel valid s.start) (Extent.plain_toPixel valid s.stop)
    have past : wide.extent.toPixel ⟨1, 0⟩ = ⟨2 ^ 24 + 4, 0⟩ := by decide +kernel
    have short : ¬ wide.extent.HasSamples ⟨2 ^ 24 + 4, 0⟩ := by decide
    rw [start, past] at first
    exact short (all s drawn _ first)

end Painter
end LSystem
