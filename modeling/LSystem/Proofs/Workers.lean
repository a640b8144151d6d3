import LSystem.Painter.Basic
import LSystem.Proofs.Dividing
import LSystem.Proofs.InBounds
import LSystem.Proofs.Interleaving

namespace LSystem

namespace Report

theorem foldl_append (r : Report) (outcomes : List (Except Failure (Array Segment))) :
    outcomes.foldl (fun r o => r.append (ofOutcome o)) r = r.append (ofOutcomes outcomes) := by
  induction outcomes generalizing r with
  | nil => exact (append_empty r).symm
  | cons o outcomes ih =>
    rw [ofOutcomes, List.foldl_cons, List.foldl_cons, ih, ih, empty_append, append_assoc]

theorem ofOutcomes_append (xs ys : List (Except Failure (Array Segment))) :
    ofOutcomes (xs ++ ys) = (ofOutcomes xs).append (ofOutcomes ys) := by
  rw [ofOutcomes, List.foldl_append, foldl_append]
  rfl

/-- Reports joined in order report on all outcomes in order. -/
theorem foldl_parts (r : Report) (parts : List (List (Except Failure (Array Segment)))) :
    parts.foldl (fun r os => r.append (ofOutcomes os)) r = r.append (ofOutcomes parts.flatten) := by
  induction parts generalizing r with
  | nil => exact (append_empty r).symm
  | cons part parts ih =>
    rw [List.foldl_cons, ih, List.flatten_cons, ofOutcomes_append, append_assoc]

end Report

namespace Turtle

variable {t : Turtle} {gait : Gait} {w : Walk}

theorem colour_obey (hw : ∀ s ∈ w.segments, s.colour = gait.colour) (c : Command) :
    ∀ s ∈ (t.obey gait w c).segments, s.colour = gait.colour := by
  cases c with
  | draw =>
    intro s hs
    rcases Array.mem_push.mp hs with old | rfl
    · exact hw s old
    · rfl
  | move | turn sign | around | push | pop | ignore => exact hw

/-- A walk draws in the one colour of its gait. -/
theorem colour_follow (hw : ∀ s ∈ w.segments, s.colour = gait.colour) (u : Word) :
    ∀ s ∈ (t.follow gait w u).1.segments, s.colour = gait.colour := by
  induction u generalizing w with
  | nil => exact hw
  | cons s u ih =>
    simp only [follow]
    split
    · exact hw
    · exact ih (colour_obey hw _)

end Turtle

namespace Painter

theorem outcome_eq_ok_iff (p : Painter) (index : Nat) (f : Figure) (w : Word)
    (drawn : Array Segment) : p.outcome index f w = .ok drawn ↔
      (p.turtle.walk f.gait (p.source index) w).2 = none ∧
        (p.turtle.walk f.gait (p.source index) w).1.segments = drawn := by
  unfold outcome
  cases p.turtle.walk f.gait (p.source index) w with
  | mk walk fault => cases fault <;> simp

theorem colour_outcome {p : Painter} {index : Nat} {f : Figure} {w : Word}
    {segments : Array Segment} (h : p.outcome index f w = .ok segments) :
    ∀ s ∈ segments, s.colour = f.colour := by
  obtain ⟨-, rfl⟩ := (p.outcome_eq_ok_iff index f w segments).mp h
  apply Turtle.colour_follow
  simp [Walk.start]

theorem groupLength_pos (p : Painter) {size : Nat} (hs : 0 < size) : 0 < p.groupLength size :=
  Dividing.rounded_up_pos hs (by unfold groupCount; omega)

/-- The figures of each worker, with their indices among all figures. -/
def numbered (p : Painter) (fs : List (Figure × Word)) : List (List ((Figure × Word) × Nat)) :=
  (p.groups fs).map (fun (first, group) => group.zipIdx first)

/-- Every figure goes to one worker, and keeps its place and its index. -/
theorem flatten_numbered (p : Painter) (fs : List (Figure × Word)) :
    (p.numbered fs).flatten = fs.zipIdx := by
  rcases Nat.eq_zero_or_pos fs.length with empty | filled
  · obtain rfl := List.eq_nil_of_length_eq_zero empty
    simp [numbered, groups, groupLength, groupCount]
  · have runs := Dividing.flatMap_runs fs.zipIdx (p.groupLength_pos filled)
    rw [List.length_zipIdx] at runs
    rw [← runs, numbered, groups, List.map_map, List.flatMap_def]
    congr 1
    apply List.map_congr_left
    intro i _
    exact Dividing.zipIdx_run fs _ _

def outcomeOf (p : Painter) (a : (Figure × Word) × Nat) : Except Failure (Array Segment) :=
  p.outcome a.2 a.1.1 a.1.2

theorem outcomes_eq_map (p : Painter) (first : Nat) (fs : List (Figure × Word)) :
    p.outcomes first fs = (fs.zipIdx first).map p.outcomeOf := rfl

theorem outcomes_groups (p : Painter) (fs : List (Figure × Word)) :
    (p.groups fs).map (fun (first, group) => p.outcomes first group) =
      (p.numbered fs).map (List.map p.outcomeOf) := by
  rw [numbered, List.map_map]
  rfl

/-- The groups have all outcomes between them, each once and in order. -/
theorem flatten_outcomes (p : Painter) (fs : List (Figure × Word)) :
    ((p.groups fs).map (fun (first, group) => p.outcomes first group)).flatten =
      p.outcomes 0 fs := by
  rw [outcomes_groups, ← List.map_flatten, flatten_numbered]
  rfl

/-- Workers joined in order report what one pass in order reports. -/
theorem report_paint (p : Painter) (figures : List Figure) (picture : Picture) (supply : Supply) :
    (p.paint figures picture supply).report =
      .ofOutcomes (p.outcomes 0 (expandAll figures supply).1) := by
  simp only [paint]
  rw [Report.foldl_parts, flatten_outcomes, Report.empty_append]

/-- What the drawing of one figure stores, channel by channel. -/
def stores (e : Extent) : Except Failure (Array Segment) → List Write
  | .ok segments => segments.toList.flatMap (Write.segment e)
  | .error _ => []

/-- The stores of each worker, in its own order. -/
def programs (p : Painter) (e : Extent) (fs : List (Figure × Word)) : List (List Write) :=
  (p.numbered fs).map (List.flatMap (fun a => stores e (p.outcomeOf a)))

theorem flatten_programs (p : Painter) (e : Extent) (fs : List (Figure × Word)) :
    (p.programs e fs).flatten = (p.outcomes 0 fs).flatMap (stores e) := by
  calc (p.programs e fs).flatten
      = ((p.numbered fs).flatMap id).flatMap (fun a => stores e (p.outcomeOf a)) := by
        rw [List.flatMap_assoc]
        rfl
    _ = fs.zipIdx.flatMap (fun a => stores e (p.outcomeOf a)) := by
        rw [List.flatMap_id, flatten_numbered]
    _ = (p.outcomes 0 fs).flatMap (stores e) := by
        rw [outcomes_eq_map, List.flatMap_map]

theorem foldl_drawShared (picture : Picture) (segments : List Segment) :
    segments.foldl Picture.drawShared picture =
      picture.writeAll (segments.flatMap (Write.segment picture.extent)) := by
  induction segments generalizing picture with
  | nil => rfl
  | cons s segments ih =>
    rw [List.foldl_cons, ih, Picture.drawShared, Picture.extent_writeAll, List.flatMap_cons,
      Picture.writeAll_append]

theorem drawOutcome_drawShared (picture : Picture) (o : Except Failure (Array Segment)) :
    drawOutcome Picture.drawShared picture o = picture.writeAll (stores picture.extent o) := by
  cases o with
  | error failure => rfl
  | ok segments =>
    rw [stores, ← foldl_drawShared, Array.foldl_toList]
    rfl

/-- Drawing outcomes one after the other is storing all that they store. -/
theorem foldl_drawOutcome (picture : Picture) (os : List (Except Failure (Array Segment))) :
    os.foldl (drawOutcome Picture.drawShared) picture =
      picture.writeAll (os.flatMap (stores picture.extent)) := by
  induction os generalizing picture with
  | nil => rfl
  | cons o os ih =>
    rw [List.foldl_cons, ih, drawOutcome_drawShared, Picture.extent_writeAll, List.flatMap_cons,
      Picture.writeAll_append]

theorem picture_paintInOrder (p : Painter) (figures : List Figure) (picture : Picture)
    (supply : Supply) :
    (p.paintInOrder .overwrite figures picture supply).picture =
      picture.writeAll
        (p.programs picture.extent (expandAll figures supply).1).flatten := by
  have same : Picture.draw .overwrite = Picture.drawShared := by
    funext picture s
    exact (picture.drawShared_eq_draw s).symm
  rw [flatten_programs, ← foldl_drawOutcome, paintInOrder, same]

/-- What the workers draw one after the other. -/
theorem picture_paint (p : Painter) (figures : List Figure) (picture : Picture)
    (supply : Supply) :
    (p.paint figures picture supply).picture =
      picture.writeAll
        (p.programs picture.extent (expandAll figures supply).1).flatten := by
  rw [flatten_programs, ← flatten_outcomes, ← foldl_drawOutcome, List.foldl_flatten]
  rfl

/-- The pixels that the drawing of one figure goes over. -/
def touched (e : Extent) : Except Failure (Array Segment) → List Pixel
  | .ok segments => segments.toList.flatMap e.line
  | .error _ => []

/-- The segments of all figures begin and end inside the picture. -/
def EndsInside (p : Painter) (e : Extent) (fs : List (Figure × Word)) : Prop :=
  ∀ a ∈ fs.zipIdx, ∀ segments, p.outcomeOf a = .ok segments → ∀ s ∈ segments,
    e.Inside (e.toPixel s.start) ∧ e.Inside (e.toPixel s.stop)

/-- Two figures share no pixel, or they share their colour. -/
def Compatible (p : Painter) (e : Extent) (a b : (Figure × Word) × Nat) : Prop :=
  (∀ q ∈ touched e (p.outcomeOf a), q ∉ touched e (p.outcomeOf b)) ∨ a.1.1.colour = b.1.1.colour

/-- Figures of different workers are compatible. -/
def Settled (p : Painter) (e : Extent) (fs : List (Figure × Word)) : Prop :=
  (p.numbered fs).Pairwise (fun one other => ∀ a ∈ one, ∀ b ∈ other, p.Compatible e a b)

/-- A store of a figure is to a pixel that it touches, which the picture has, in its colour. -/
theorem mem_stores {p : Painter} {e : Extent} {fs : List (Figure × Word)} (h : e.Valid)
    (ends : p.EndsInside e fs) {a : (Figure × Word) × Nat} (ha : a ∈ fs.zipIdx) {u : Write}
    (hu : u ∈ stores e (p.outcomeOf a)) :
    ∃ q ∈ touched e (p.outcomeOf a), e.Inside q ∧ u ∈ Write.pixel e a.1.1.colour.solid q := by
  have inside := ends a ha
  cases hs : p.outcomeOf a with
  | error failure =>
    rw [hs] at hu
    cases hu
  | ok segments =>
    rw [hs] at hu
    obtain ⟨s, hsegment, hu⟩ := List.mem_flatMap.mp hu
    obtain ⟨q, hq, hu⟩ := List.mem_flatMap.mp hu
    have drawn := Array.mem_toList_iff.mp hsegment
    obtain ⟨start, stop⟩ := inside segments hs s drawn
    refine ⟨q, ?_, Extent.inside_of_mem_line h start stop hq, ?_⟩
    · exact List.mem_flatMap.mpr ⟨s, hsegment, hq⟩
    · exact colour_outcome hs s drawn ▸ hu

/-- Workers whose figures are compatible agree on every cell that two of them store to. -/
theorem programs_agree {p : Painter} {e : Extent} {fs : List (Figure × Word)} (h : e.Valid)
    (ends : p.EndsInside e fs) (settled : p.Settled e fs) :
    (p.programs e fs).Pairwise Write.Agree := by
  have placed {worker : List ((Figure × Word) × Nat)} (hw : worker ∈ p.numbered fs)
      {a : (Figure × Word) × Nat} (ha : a ∈ worker) : a ∈ fs.zipIdx := by
    rw [← p.flatten_numbered]
    exact List.mem_flatten_of_mem hw ha
  refine List.pairwise_map.mpr (List.Pairwise.imp_of_mem ?_ settled)
  intro one other hone hother compatible u hu v hv same
  obtain ⟨a, ha, hu⟩ := List.mem_flatMap.mp hu
  obtain ⟨b, hb, hv⟩ := List.mem_flatMap.mp hv
  obtain ⟨q, hq, insideq, hu⟩ := mem_stores h ends (placed hone ha) hu
  obtain ⟨r, hr, insider, hv⟩ := mem_stores h ends (placed hother hb) hv
  rcases compatible a ha b hb with apart | colour
  · have shared : q = r := Extent.eq_of_mem_cells h insideq insider (Write.cell_mem_cells hu)
      (same ▸ Write.cell_mem_cells hv)
    exact absurd (shared ▸ hr) (apart q hq)
  · rw [colour] at hu
    exact Write.value_eq_of_cell_eq hu hv same

/-- The number of workers shows in no report. It shows in no picture either, whatever the order in
which their stores arrive, when figures of different workers share no pixel or share their
colour. -/
theorem paint_deterministic (p : Painter) (workers : Nat) (figures : List Figure)
    (picture : Picture) (supply : Supply) :
    let many := p.setWorkers workers
    let drawn := (expandAll figures supply).1
    (many.paint figures picture supply).report =
        ((p.setWorkers 1).paint figures picture supply).report ∧
      (∀ mode, (many.paint figures picture supply).report =
        (p.paintInOrder mode figures picture supply).report) ∧
      (∃ schedule, Interleaving (many.programs picture.extent drawn) schedule ∧
        (many.paint figures picture supply).picture = picture.writeAll schedule) ∧
      (picture.extent.Valid → p.EndsInside picture.extent drawn →
        many.Settled picture.extent drawn →
          ∀ schedule, Interleaving (many.programs picture.extent drawn) schedule →
            picture.writeAll schedule =
              (p.paintInOrder .overwrite figures picture supply).picture) := by
  intro many drawn
  refine ⟨?_, ?_, ?_, ?_⟩
  · rw [report_paint, report_paint]
    rfl
  · intro mode
    rw [report_paint]
    rfl
  · exact ⟨_, .sequential _, picture_paint many figures picture supply⟩
  · intro valid ends settled schedule order
    have agree := programs_agree (p := many) valid ends settled
    rw [picture.writeAll_interleaving order agree]
    exact (picture_paintInOrder many figures picture supply).symm

/-- Two figures of one colour that may cross, and one of another colour that cannot be drawn. -/
theorem paint_deterministic_crossing :
    let p := Painter.usual
    let figure (text : String) (colour : Rgb) : Figure :=
      ⟨⟨"", ⟨[], .empty⟩, quarterTurn⟩, ⟨0, 0⟩, 0, 1, colour, 0, some ⟨0, Word.ofText text⟩⟩
    let figures := [figure "F+F" ⟨1, 0, 0⟩, figure "FF" ⟨1, 0, 0⟩, figure "F]" ⟨0, 0, 1⟩]
    let picture := Picture.blank ⟨5, 4⟩
    let drawn := (expandAll figures ⟨1⟩).1
    let programs := (p.setWorkers 3).programs picture.extent drawn
    picture.extent.Valid ∧ p.EndsInside picture.extent drawn ∧
      (p.setWorkers 3).Settled picture.extent drawn ∧ Interleaving programs programs.flatten ∧
        picture.writeAll programs.flatten =
          (p.paintInOrder .overwrite figures picture ⟨1⟩).picture := by
  intro p figure figures picture drawn programs
  have valid : picture.extent.Valid := by decide
  have ends : p.EndsInside picture.extent drawn := by
    have sound : picture.extent.Sound := by decide
    intro a _ segments _ s _
    exact ⟨Extent.inside_toPixel sound s.start, Extent.inside_toPixel sound s.stop⟩
  have settled : (p.setWorkers 3).Settled picture.extent drawn := by
    have few : drawn.length = 3 := rfl
    have single : (p.setWorkers 3).groupLength drawn.length = 1 := by rw [few]; decide
    have alone : (p.setWorkers 3).numbered drawn = drawn.zipIdx.map (fun a => [a]) := by
      rw [numbered, groups, single, few]
      rfl
    have faulty : touched picture.extent ((p.setWorkers 3).outcomeOf
        ((figure "F]" ⟨0, 0, 1⟩, Word.ofText "F]"), 2)) = [] := by decide +kernel
    have apart (a : (Figure × Word) × Nat) : (p.setWorkers 3).Compatible picture.extent a
        ((figure "F]" ⟨0, 0, 1⟩, Word.ofText "F]"), 2) := by
      left
      intro q _
      rw [faulty]
      exact List.not_mem_nil
    rw [Settled, alone]
    simp only [drawn, figures, expandAll, Figure.expand, figure, List.zipIdx_cons, List.zipIdx_nil,
      List.map_cons, List.map_nil, List.pairwise_cons, List.mem_cons, List.not_mem_nil, or_false,
      forall_eq_or_imp, forall_eq]
    exact ⟨⟨Or.inr rfl, apart _⟩, apart _, fun _ absent => absent.elim, .nil⟩
  have order : Interleaving programs programs.flatten := .sequential programs
  exact ⟨valid, ends, settled, order,
    (p.paint_deterministic 3 figures picture ⟨1⟩).2.2.2 valid ends settled _ order⟩

end Painter
end LSystem
