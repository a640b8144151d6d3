import LSystem.Proofs.Effects
import LSystem.Proofs.Grid

namespace LSystem

/-- The last of some segments that come by a pixel. -/
def Extent.lastOver (e : Extent) (segments : List Segment) (q : Pixel) : Option Segment :=
  (segments.filter (fun s => q ∈ e.line s)).getLast?

namespace Picture

variable {p r : Picture}

/-- Pictures of one extent with the same colour at every pixel are the same, sample by sample. -/
theorem ext_get (extent : p.extent = r.extent)
    (same : ∀ q, r.extent.Inside q → p.get q = r.get q) : p = r := by
  have samples : p.samples = r.samples := by
    rw [← Array.toList_inj, samples_eq_listing, samples_eq_listing, extent]
    apply List.flatMap_congr
    intro y hy
    apply List.flatMap_congr
    intro x hx
    rw [same ⟨x, y⟩ ⟨List.mem_range.mp hx, List.mem_range.mp hy⟩]
  obtain ⟨e, ps, size⟩ := p
  obtain ⟨e', ps', size'⟩ := r
  cases extent
  cases samples
  rfl

/-- Nothing that a picture held is left when it is cleared. -/
theorem clear_eq (extent : p.extent = r.extent) (c : Rgba) : p.clear c = r.clear c := by
  obtain ⟨e, ps, size⟩ := p
  obtain ⟨e', ps', size'⟩ := r
  cases extent
  rfl

theorem foldl_overwrite (segments : List Segment) (c : Rgba) :
    segments.foldl (fun c s => Mode.overwrite.apply s.colour c) c =
      segments.getLast?.elim c (fun s => s.colour.solid) := by
  induction segments using List.reverseRecOn with
  | nil => rfl
  | append_singleton segments s _ =>
    rw [List.foldl_append, List.getLast?_concat]
    rfl

/-- Of many segments that overwrite, the last one that comes by a pixel is what the pixel shows. -/
theorem get_foldl_overwrite (h : p.extent.Valid) {segments : List Segment}
    (ends : ∀ s ∈ segments, p.extent.Inside (p.extent.toPixel s.start) ∧
      p.extent.Inside (p.extent.toPixel s.stop)) {q : Pixel} (hq : p.extent.Inside q) :
    (segments.foldl (draw .overwrite) p).get q =
      (p.extent.lastOver segments q).elim (p.get q) (fun s => s.colour.solid) := by
  rw [get_foldl_draw h rfl ends hq, foldl_overwrite, Extent.lastOver]

/-- To overwrite once more what was overwritten by the same segments changes nothing. -/
theorem foldl_overwrite_again (h : p.extent.Valid) {segments : List Segment}
    (ends : ∀ s ∈ segments, p.extent.Inside (p.extent.toPixel s.start) ∧
      p.extent.Inside (p.extent.toPixel s.stop)) :
    segments.foldl (draw .overwrite) (segments.foldl (draw .overwrite) p) =
      segments.foldl (draw .overwrite) p := by
  have extent := extent_foldl_draw .overwrite segments p
  refine ext_get (extent_foldl_draw ..) ?_
  intro q hq
  rw [extent] at hq
  have once := get_foldl_overwrite h ends hq
  have twice := get_foldl_overwrite (p := segments.foldl (draw .overwrite) p) (extent ▸ h)
    (extent ▸ ends) (extent ▸ hq)
  rw [twice, extent, once]
  cases p.extent.lastOver segments q <;> rfl

end Picture

/-- A pass of a single worker that overwrites: over a shared picture, in order, or turn by turn with
one buffer, whatever that held at first. -/
inductive Painter.Overwrites (p : Painter) (figures : List Figure) (picture : Picture)
    (supply : Supply) : Pass → Prop where
  | alone (single : p.groupCount figures.length = 1) :
      Overwrites p figures picture supply (p.paint figures picture supply)
  | inOrder :
      Overwrites p figures picture supply (p.paintInOrder .overwrite figures picture supply)
  | turns {draw : Picture → Segment → Id Picture} (buffer : Array Segment)
      (overwriting : draw = Picture.drawShared ∨ draw = Picture.draw .overwrite) :
      Overwrites p figures picture supply
        (p.paintFrom draw 0 figures ⟨[], picture, .empty, buffer, supply⟩).run.pass

namespace Painter

variable {p : Painter} {figures : List Figure} {picture : Picture} {supply : Supply} {pass : Pass}

theorem Overwrites.eq_inOrder (h : p.Overwrites figures picture supply pass) :
    pass = p.paintInOrder .overwrite figures picture supply := by
  cases h with
  | alone single => exact p.paint_eq_paintInOrder figures picture supply
  | inOrder => rfl
  | turns buffer overwriting =>
    rcases overwriting with rfl | rfl
    · rw [drawShared_eq_overwrite]
      exact p.paintFrom_eq_paintInOrder .overwrite figures picture supply buffer
    · exact p.paintFrom_eq_paintInOrder .overwrite figures picture supply buffer

theorem picture_inOrder (p : Painter) (mode : Mode) (figures : List Figure) (picture : Picture)
    (supply : Supply) : (p.paintInOrder mode figures picture supply).picture =
      (p.strokes figures).foldl (Picture.draw mode) picture := by
  rw [← p.drawn_eq_strokes figures supply, ← foldl_drawOutcome_eq]
  rfl

/-- Expanded once, figures come with the same words again, and take no more tags. -/
theorem expandAll_again (figures : List Figure) (supply later : Supply) :
    expandAll ((expandAll figures supply).1.map Prod.fst) later =
      ((expandAll figures supply).1, later) := by
  induction figures generalizing supply with
  | nil => rfl
  | cons f figures ih =>
    obtain ⟨e, rest, given, -⟩ := f.expand_eq supply
    have kept : { f with expansion? := some e }.expand later =
      (e, { f with expansion? := some e }, later) := rfl
    simp only [expandAll, given, List.map_cons, kept, ih]

theorem strokes_again (p : Painter) (mode : Mode) (figures : List Figure) (picture : Picture)
    (supply : Supply) :
    p.strokes (p.paintInOrder mode figures picture supply).figures = p.strokes figures := by
  rw [← p.drawn_eq_strokes figures supply, ← p.drawn_eq_strokes _ supply, paintInOrder,
    expandAll_again]

theorem report_again (p : Painter) (mode : Mode) (figures : List Figure) (picture later : Picture)
    (supply rest : Supply) :
    let pass := p.paintInOrder mode figures picture supply
    (p.paintInOrder mode pass.figures later rest).report = pass.report := by
  simp only [paintInOrder, expandAll_again]

/-- Every pixel that a pass overwrites shows the last segment over it, the others keep what they
had. Another pass over the figures that the first one left adds nothing to the picture and reports
the same. After a clearing nothing of what was there before has any part in it. -/
theorem last_stroke_shows (painted : p.Overwrites figures picture supply pass)
    (valid : picture.extent.Valid)
    (ends : ∀ s ∈ p.strokes figures, picture.extent.Inside (picture.extent.toPixel s.start) ∧
      picture.extent.Inside (picture.extent.toPixel s.stop)) :
    pass.picture.extent = picture.extent ∧
      (∀ q, picture.extent.Inside q → pass.picture.get q =
        (picture.extent.lastOver (p.strokes figures) q).elim (picture.get q) (·.colour.solid)) ∧
      (∀ rest again, p.Overwrites pass.figures pass.picture rest again →
        again.picture = pass.picture ∧ again.report = pass.report) ∧
      ∀ (c : Rgba) (other : Picture) (rest rest' : Supply) (one two : Pass),
        other.extent = picture.extent → p.Overwrites figures (picture.clear c) rest one →
          p.Overwrites figures (other.clear c) rest' two →
            one.picture = two.picture ∧ ∀ q, picture.extent.Inside q → one.picture.get q =
              (picture.extent.lastOver (p.strokes figures) q).elim c (·.colour.solid) := by
  obtain rfl := painted.eq_inOrder
  refine ⟨?_, ?_, ?_, ?_⟩
  · rw [picture_inOrder, Picture.extent_foldl_draw]
  · intro q hq
    rw [picture_inOrder]
    exact Picture.get_foldl_overwrite valid ends hq
  · intro rest again repainted
    obtain rfl := repainted.eq_inOrder
    refine ⟨?_, report_again ..⟩
    rw [picture_inOrder, strokes_again, picture_inOrder]
    exact Picture.foldl_overwrite_again valid ends
  · intro c other rest rest' one two extent first second
    obtain rfl := first.eq_inOrder
    obtain rfl := second.eq_inOrder
    refine ⟨?_, ?_⟩
    · rw [picture_inOrder, picture_inOrder, Picture.clear_eq extent]
    · intro q hq
      have drawn := Picture.get_foldl_overwrite (p := picture.clear c) valid ends hq
      rw [picture_inOrder, drawn, Picture.extent_clear, Picture.get_clear valid hq]

/-- Two figures begin at the same pixel, with one between them that cannot be drawn. Their turns are
jittered alike in both passes. -/
theorem last_stroke_shows_jittered :
    let p : Painter := { Painter.usual with turtle := .usual ⟨8, true⟩, seed := 7 }
    let figure (text : String) (colour : Rgb) : Figure :=
      ⟨⟨"", ⟨Word.ofText text, .empty⟩, quarterTurn⟩, ⟨0, 0⟩, 0, 1, colour, 3, none⟩
    let figures := [figure "F+F" ⟨1, 0, 0⟩, figure "F]" ⟨0, 1, 0⟩, figure "F" ⟨0, 0, 1⟩]
    let picture := Picture.blank ⟨5, 4⟩
    let pass := p.paintInOrder .overwrite figures picture ⟨0⟩
    let again := p.paint pass.figures pass.picture ⟨9⟩
    p.Overwrites figures picture ⟨0⟩ pass ∧ picture.extent.Valid ∧
      p.Overwrites pass.figures pass.picture ⟨9⟩ again ∧
        pass.picture.get ⟨0, 0⟩ = ⟨0, 0, 1, 1⟩ ∧ again.picture = pass.picture ∧
          again.report = pass.report := by
  intro p figure figures picture pass again
  have painted : p.Overwrites figures picture ⟨0⟩ pass := .inOrder
  have repainted : p.Overwrites pass.figures pass.picture ⟨9⟩ again := .alone rfl
  have valid : picture.extent.Valid := by decide
  have sound : picture.extent.Sound := by decide
  obtain ⟨-, shows, same, -⟩ := last_stroke_shows painted valid
    (fun s _ => ⟨Extent.inside_toPixel sound s.start, Extent.inside_toPixel sound s.stop⟩)
  let top : Segment := ⟨⟨0, 0⟩, (Pose.advance ⟨⟨0, 0⟩, 0⟩ 1).position, ⟨0, 0, 1⟩⟩
  have last : p.strokes figures = p.strokes (figures.take 2) ++ [top] := by
    have word : (figure "F" ⟨0, 0, 1⟩).word = [70] := by decide +kernel
    have draw : p.turtle.alphabet.command 70 = .draw := by decide +kernel
    have path (source : Option Generator) : p.turtle.path (figure "F" ⟨0, 0, 1⟩).gait source [70] =
        .ok ⟨#[top], Pose.advance ⟨⟨0, 0⟩, 0⟩ 1⟩ := by
      simp only [Turtle.path, Turtle.walk, Turtle.follow, draw]
      rfl
    simp [strokes, figures, word, path]
  have here : (⟨0, 0⟩ : Pixel) ∈ picture.extent.line top := by
    have origin : picture.extent.toPixel ⟨0, 0⟩ = ⟨0, 0⟩ := by decide +kernel
    rw [← origin]
    exact start_mem_line (Extent.plain_toPixel valid _) (Extent.plain_toPixel valid _)
  have latest : picture.extent.lastOver (p.strokes figures) ⟨0, 0⟩ = some top := by
    rw [last, Extent.lastOver, List.filter_append, List.filter_singleton, decide_eq_true here]
    exact List.getLast?_concat
  refine ⟨painted, valid, repainted, ?_, same ⟨9⟩ again repainted⟩
  rw [shows ⟨0, 0⟩ ⟨by decide, by decide⟩, latest]
  rfl

end Painter
end LSystem
