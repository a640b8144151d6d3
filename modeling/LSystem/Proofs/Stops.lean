import LSystem.Proofs.InBounds

namespace LSystem

/-- Steps that are taken only where they are allowed come to an end if all of them are, and then to
where the unchecked steps come. -/
theorem foldlM_checked {α β : Type} {step : α → β → α} {step? : α → β → Option α}
    (Good : α → Prop) (Allowed : β → Prop) [DecidablePred Allowed]
    (checked : ∀ a b, Good a → step? a b = if Allowed b then some (step a b) else none)
    (kept : ∀ a b, Good a → Good (step a b)) (bs : List β) {a : α} (good : Good a) :
    bs.foldlM step? a = if ∀ b ∈ bs, Allowed b then some (bs.foldl step a) else none := by
  induction bs generalizing a with
  | nil => simp
  | cons b bs ih =>
    rw [List.foldlM_cons, checked a b good]
    by_cases allowed : Allowed b
    · simp [allowed, ih (kept a b good)]
    · simp [allowed]

namespace Extent

/-- A picture of this extent has all four samples of the pixel. -/
def HasSamples (e : Extent) (q : Pixel) : Prop := e.cell q + 4 ≤ 4 * e.area

instance (e : Extent) : DecidablePred e.HasSamples := fun _ => inferInstanceAs (Decidable (_ ≤ _))

/-- Every pixel of the segment has its samples. -/
def Takes (e : Extent) (s : Segment) : Prop := ∀ q ∈ e.line s, e.HasSamples q

instance (e : Extent) : DecidablePred e.Takes := fun _ => List.decidableBAll ..

/-- A segment that ends inside a picture can be drawn. -/
theorem takes_of_ends {e : Extent} (h : e.Valid) {s : Segment}
    (start : e.Inside (e.toPixel s.start)) (stop : e.Inside (e.toPixel s.stop)) : e.Takes s := by
  intro q hq
  exact cell_add_le h (inside_of_mem_line h start stop hq)

end Extent

namespace Picture

theorem draw?_eq (mode : Mode) (p : Picture) (s : Segment) :
    p.draw? mode s = if p.extent.Takes s then some (p.draw mode s) else none := by
  refine foldlM_checked (·.extent = p.extent) p.extent.HasSamples ?_ ?_ _ rfl
  · intro q place extent
    rw [paintPixel?, q.size_eq, extent]
    rfl
  · intro q place extent
    exact extent

/-- Shared or not, drawing stops at the same pixels and stores the same. -/
theorem drawShared?_eq_draw? : drawShared? = draw? .overwrite := by
  funext p s
  have same : writePixel? s.colour = paintPixel? .overwrite s.colour := rfl
  rw [drawShared?, draw?, same]

/-- Segments can be drawn one after the other exactly when all of them can be drawn. -/
theorem foldlM_draw?_eq (mode : Mode) (p : Picture) (segments : List Segment) :
    segments.foldlM (draw? mode) p =
      if ∀ s ∈ segments, p.extent.Takes s then some (segments.foldl (draw mode) p) else none := by
  refine foldlM_checked (·.extent = p.extent) p.extent.Takes ?_ ?_ segments rfl
  · intro q s extent
    rw [draw?_eq, extent]
  · intro q s extent
    exact (q.extent_draw mode s).trans extent

end Picture

end LSystem
