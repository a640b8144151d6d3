import LSystem.Picture.Writes
import LSystem.Proofs.LinePath
import LSystem.Proofs.Rounding

namespace LSystem

open Binary32

namespace Extent

/-- The pixels that a picture of this extent has. -/
def Inside (e : Extent) (p : Pixel) : Prop := p.x < e.width ∧ p.y < e.height

/-- On neither side is the number of the last pixel rounded past the side. -/
def Sound (e : Extent) : Prop :=
  nearestTo (e.width - 1) < e.width ∧ nearestTo (e.height - 1) < e.height

instance (e : Extent) : Decidable e.Sound := inferInstanceAs (Decidable (_ ∧ _))

/-- The cells that hold the samples of a pixel. -/
def cells (e : Extent) (p : Pixel) : List Nat := List.range' (e.cell p) 4

/-- The row that a cell belongs to. -/
def row (e : Extent) (cell : Nat) : Nat := cell / (4 * e.width)

theorem mem_cells {e : Extent} {p : Pixel} {c : Nat} :
    c ∈ e.cells p ↔ e.cell p ≤ c ∧ c < e.cell p + 4 := List.mem_range'_1

theorem along_le (size : Nat) (v : Float32) : along size v ≤ nearestTo (size - 1) := by
  unfold along
  dsimp only
  split
  · exact Nat.zero_le _
  · exact Nat.min_le_right _ _

/-- The far end of the unit interval is the number of the last pixel, as it was rounded. -/
theorem along_one {size : Nat} (small : size ≤ 2 ^ 64) : along size 1 = nearestTo (size - 1) := by
  have fits : size - 1 < 2 ^ 64 := by omega
  simp only [along, one_mul_ofNat fits, isNaN_ofNat fits, negative_ofNat fits,
    nearestWhole_ofNat fits, Nat.min_self]
  rfl

theorem inside_toPixel {e : Extent} (sound : e.Sound) (p : Point) : e.Inside (e.toPixel p) :=
  ⟨Nat.lt_of_le_of_lt (along_le e.width p.x) sound.1,
    Nat.lt_of_le_of_lt (along_le e.height p.y) sound.2⟩

/-- Sides of up to `2 ^ 24 + 3` pixels are sound. -/
theorem sound_of_le {e : Extent} (hw : 0 < e.width ∧ e.width ≤ 2 ^ 24 + 3)
    (hh : 0 < e.height ∧ e.height ≤ 2 ^ 24 + 3) : e.Sound := by
  have side (size : Nat) (h : 0 < size ∧ size ≤ 2 ^ 24 + 3) : nearestTo (size - 1) < size := by
    rcases Nat.lt_or_ge (size - 1) (2 ^ 24) with few | many
    · rw [nearestTo_of_lt few]
      omega
    · have last : size = 2 ^ 24 + 1 ∨ size = 2 ^ 24 + 2 ∨ size = 2 ^ 24 + 3 := by omega
      rcases last with rfl | rfl | rfl <;> decide
  exact ⟨side e.width hw, side e.height hh⟩

section Valid

variable {e : Extent} (h : e.Valid)

include h

theorem Valid.width_pos : 0 < e.width := Nat.pos_of_mul_pos_right h.1

theorem Valid.height_pos : 0 < e.height := Nat.pos_of_mul_pos_left h.1

/-- A picture whose samples can be counted has no side that a sign could show on. -/
theorem Valid.sides_lt : e.width < 2 ^ 62 ∧ e.height < 2 ^ 62 := by
  have area : 4 * e.area < 2 ^ 64 := h.2
  have width : e.width * 1 ≤ e.area := Nat.mul_le_mul_left e.width h.height_pos
  have height : 1 * e.height ≤ e.area := Nat.mul_le_mul_right e.height h.width_pos
  omega

/-- Every point goes to a pixel whose coordinates a sign does not change. -/
theorem plain_toPixel (p : Point) : (e.toPixel p).Plain := by
  obtain ⟨width, height⟩ := h.sides_lt
  have hx := Nat.le_trans (along_le e.width p.x) (nearestTo_le _)
  have hy := Nat.le_trans (along_le e.height p.y) (nearestTo_le _)
  constructor
  · change along e.width p.x < 2 ^ 63
    omega
  · change along e.height p.y < 2 ^ 63
    omega

/-- A line between two pixels of a picture has no pixels elsewhere. -/
theorem inside_of_mem_line {s : Segment} (start : e.Inside (e.toPixel s.start))
    (stop : e.Inside (e.toPixel s.stop)) {q : Pixel} (hq : q ∈ e.line s) : e.Inside q := by
  obtain ⟨⟨-, hx⟩, -, hy⟩ := line_bounds (plain_toPixel h s.start) (plain_toPixel h s.stop) hq
  exact ⟨Nat.lt_of_le_of_lt hx (Nat.max_lt.mpr ⟨start.1, stop.1⟩),
    Nat.lt_of_le_of_lt hy (Nat.max_lt.mpr ⟨start.2, stop.2⟩)⟩

/-- The cells of a pixel are there and in its own row exactly when the picture has the pixel. -/
theorem cells_in_row_iff (q : Pixel) :
    (∀ c ∈ e.cells q, c < 4 * e.area ∧ e.row c = q.y) ↔ e.Inside q := by
  have width := h.width_pos
  have sides : 4 * e.area = e.height * (4 * e.width) := by
    rw [area]
    ring
  have first : e.cell q = 4 * e.width * q.y + 4 * q.x := by
    rw [cell]
    ring
  have placed (r : Nat) : (4 * e.width * q.y + r) / (4 * e.width) = q.y + r / (4 * e.width) :=
    Nat.mul_add_div (by omega) q.y r
  constructor
  · intro own
    obtain ⟨bound, row⟩ := own (e.cell q) (mem_cells.mpr ⟨Nat.le_refl _, by omega⟩)
    have within : 4 * q.x / (4 * e.width) = 0 := by
      rw [Extent.row, first, placed] at row
      omega
    have above : q.y < e.height := by
      rw [← row, Extent.row]
      exact Nat.div_lt_of_lt_mul (by rwa [Nat.mul_comm, ← sides])
    have short := (Nat.div_eq_zero_iff_lt (by omega)).mp within
    exact ⟨by omega, above⟩
  · rintro ⟨hx, hy⟩ c hc
    obtain ⟨from_first, before_next⟩ := mem_cells.mp hc
    obtain ⟨r, rfl⟩ : ∃ r, c = 4 * e.width * q.y + r := ⟨c - 4 * e.width * q.y, by omega⟩
    have own : (4 * e.width * q.y + r) / (4 * e.width) = q.y := by
      rw [placed, Nat.div_eq_of_lt (by omega), Nat.add_zero]
    refine ⟨?_, own⟩
    rw [sides]
    exact (Nat.div_lt_iff_lt_mul (by omega)).mp (own.trans_lt hy)

/-- All four samples of a pixel are there. -/
theorem cell_add_le {q : Pixel} (hq : e.Inside q) : e.cell q + 4 ≤ 4 * e.area := by
  have last : e.cell q + 3 ∈ e.cells q := mem_cells.mpr ⟨by omega, by omega⟩
  have := ((cells_in_row_iff h q).mpr hq _ last).1
  omega

/-- No two pixels of a picture share a cell. -/
theorem eq_of_mem_cells {q r : Pixel} {c : Nat} (hq : e.Inside q) (hr : e.Inside r)
    (cq : c ∈ e.cells q) (cr : c ∈ e.cells r) : q = r := by
  have row := ((cells_in_row_iff h q).mpr hq c cq).2
  rw [((cells_in_row_iff h r).mpr hr c cr).2] at row
  obtain ⟨x, y⟩ := q
  obtain ⟨x', y'⟩ := r
  obtain rfl : y' = y := row
  rw [mem_cells, cell] at cq cr
  obtain rfl : x = x' := by
    dsimp only at cq cr
    omega
  rfl

end Valid
end Extent

namespace Write

theorem cell_mem_cells {e : Extent} {c : Rgba} {q : Pixel} {u : Write} (hu : u ∈ pixel e c q) :
    u.cell ∈ e.cells q := by
  have all : (pixel e c q).map cell = e.cells q := rfl
  exact all ▸ List.mem_map_of_mem hu

/-- Every channel of a colour has cells of its own. -/
theorem value_eq_of_cell_eq {e : Extent} {c : Rgba} {q r : Pixel} {u v : Write}
    (hu : u ∈ pixel e c q) (hv : v ∈ pixel e c r) (same : u.cell = v.cell) : u.value = v.value := by
  simp only [pixel, Extent.cell, List.mem_cons, List.not_mem_nil, or_false] at hu hv
  rcases hu with rfl | rfl | rfl | rfl <;> rcases hv with rfl | rfl | rfl | rfl <;>
    first
    | rfl
    | dsimp only at same
      omega

end Write

namespace Picture

theorem sample_set_of_notMem {p : Picture} {place : Pixel} {c : Nat}
    (hc : c ∉ p.extent.cells place) (value : Rgba) :
    (p.set place value).sample c = p.sample c := by
  rw [Extent.mem_cells] at hc
  have red : c ≠ p.extent.cell place := by omega
  have green : c ≠ p.extent.cell place + 1 := by omega
  have blue : c ≠ p.extent.cell place + 2 := by omega
  have alpha : c ≠ p.extent.cell place + 3 := by omega
  simp only [set, sample_setSample, red, green, blue, alpha, false_and, if_false]

/-- Whatever the mode, a segment changes only the samples of the pixels on its line. -/
theorem sample_draw_of_notMem {p : Picture} {s : Segment} {c : Nat}
    (hc : ∀ q ∈ p.extent.line s, c ∉ p.extent.cells q) (mode : Mode) :
    (p.draw mode s).sample c = p.sample c := by
  unfold draw
  generalize p.extent.line s = path at hc ⊢
  induction path generalizing p with
  | nil => rfl
  | cons place path ih =>
    rw [List.foldl_cons, ← sample_set_of_notMem (hc place List.mem_cons_self)]
    apply ih
    intro q hq
    exact hc q (List.mem_cons_of_mem place hq)

/-- Writes of a path one by one are its pixels painted over. -/
theorem writeAll_path (p : Picture) (colour : Rgb) (path : List Pixel) :
    p.writeAll (path.flatMap (Write.pixel p.extent colour.solid)) =
      path.foldl (paintPixel .overwrite colour) p := by
  induction path generalizing p with
  | nil => rfl
  | cons place path ih =>
    rw [List.flatMap_cons, writeAll_append, List.foldl_cons]
    exact ih (p.paintPixel .overwrite colour place)

theorem drawShared_eq_draw (p : Picture) (s : Segment) :
    p.drawShared s = p.draw .overwrite s := p.writeAll_path s.colour (p.extent.line s)

end Picture

namespace Extent

/-- Every point stays inside, and every segment keeps to the rows of its pixels, exactly when no
side has its last pixel rounded past it; the samples that a segment changes are those of its
pixels. -/
theorem stays_inside_iff_sound {e : Extent} (h : e.Valid) :
    ((∀ p, e.Inside (e.toPixel p)) ↔ e.Sound) ∧
      ((∀ s, ∀ q ∈ e.line s, ∀ c ∈ e.cells q, c < 4 * e.area ∧ e.row c = q.y) ↔ e.Sound) ∧
      (∀ (p : Picture) (s : Segment) (c : Nat), p.extent = e →
        (∀ q ∈ e.line s, c ∉ e.cells q) →
          (∀ mode, (p.draw mode s).sample c = p.sample c) ∧
            (p.drawShared s).sample c = p.sample c) ∧
      (e.width ≤ 2 ^ 24 + 3 → e.height ≤ 2 ^ 24 + 3 → e.Sound) := by
  have corner (inside : e.Inside (e.toPixel ⟨1, 1⟩)) : e.Sound := by
    obtain ⟨width, height⟩ := h.sides_lt
    obtain ⟨hx, hy⟩ := inside
    change along e.width 1 < e.width at hx
    change along e.height 1 < e.height at hy
    rw [along_one (by omega)] at hx hy
    exact ⟨hx, hy⟩
  refine ⟨⟨?_, ?_⟩, ⟨?_, ?_⟩, ?_, ?_⟩
  · intro inside
    exact corner (inside _)
  · exact inside_toPixel
  · intro own
    have plain := plain_toPixel h ⟨1, 1⟩
    have far : e.toPixel ⟨1, 1⟩ ∈ e.line ⟨⟨1, 1⟩, ⟨1, 1⟩, ⟨0, 0, 0⟩⟩ := start_mem_line plain plain
    exact corner ((cells_in_row_iff h _).mp (own _ _ far))
  · intro sound s q hq
    have start := inside_toPixel sound s.start
    have stop := inside_toPixel sound s.stop
    exact (cells_in_row_iff h q).mpr (inside_of_mem_line h start stop hq)
  · rintro p s c rfl hc
    have kept := Picture.sample_draw_of_notMem hc
    refine ⟨kept, ?_⟩
    rw [p.drawShared_eq_draw]
    exact kept .overwrite
  · intro hw hh
    exact sound_of_le ⟨h.width_pos, hw⟩ ⟨h.height_pos, hh⟩

/-- The far end of the first side that is not sound lies one pixel outside. -/
theorem row_of_unsound :
    (⟨2 ^ 24 + 4, 1⟩ : Extent).Valid ∧
      ¬ (∀ p, (⟨2 ^ 24 + 4, 1⟩ : Extent).Inside (toPixel ⟨2 ^ 24 + 4, 1⟩ p)) := by
  have valid : (⟨2 ^ 24 + 4, 1⟩ : Extent).Valid := by decide
  have unsound : ¬ (⟨2 ^ 24 + 4, 1⟩ : Extent).Sound := by decide
  refine ⟨valid, ?_⟩
  intro inside
  exact unsound ((stays_inside_iff_sound valid).1.mp inside)

end Extent
end LSystem
