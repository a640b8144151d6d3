import LSystem.Proofs.Dividing
import LSystem.Proofs.Stops

namespace LSystem

/-- A colour for every pixel that a picture of this extent has. -/
abbrev Grid (e : Extent) := Fin e.width → Fin e.height → Rgba

def Rgba.channels (c : Rgba) : List Float32 := [c.red, c.green, c.blue, c.alpha]

namespace Grid

variable {e : Extent}

def solid (c : Rgba) : Grid e := fun _ _ => c

/-- Pixels on the path change by the rule, the others keep what they have. -/
def recolour (path : List Pixel) (rule : Rgba → Rgba) (g : Grid e) : Grid e :=
  fun x y => if (⟨x, y⟩ : Pixel) ∈ path then rule (g x y) else g x y

/-- The channels of all pixels, row after row. -/
def samples (g : Grid e) : List Float32 :=
  (List.finRange e.height).flatMap
    (fun y => (List.finRange e.width).flatMap (fun x => (g x y).channels))

def get? (g : Grid e) (place : Pixel) : Option Rgba :=
  if h : place.x < e.width ∧ place.y < e.height then some (g ⟨place.x, h.1⟩ ⟨place.y, h.2⟩)
  else none

theorem flatMap_range {α : Type} (n : Nat) (f : Nat → List α) :
    (List.range n).flatMap f = (List.finRange n).flatMap (fun i : Fin n => f i.val) := by
  rw [← List.map_coe_finRange_eq_range, List.flatMap_map]

end Grid

/-- What can be done to a picture. -/
inductive Change where
  | clear (c : Rgba)
  | draw (mode : Mode) (s : Segment)
  | drawShared (s : Segment)

namespace Change

/-- The pixels that are painted one after another. -/
def path (e : Extent) : Change → List Pixel
  | .clear _ => []
  | .draw _ s | .drawShared s => e.line s

def EndsInside (e : Extent) : Change → Prop
  | .clear _ => True
  | .draw _ s | .drawShared s => e.Inside (e.toPixel s.start) ∧ e.Inside (e.toPixel s.stop)

/-- What the change means on a grid. -/
def onGrid {e : Extent} (c : Change) (g : Grid e) : Grid e :=
  match c with
  | .clear colour => .solid colour
  | .draw .overwrite s | .drawShared s =>
    g.recolour (e.line s) (fun _ => ⟨s.colour.red, s.colour.green, s.colour.blue, 1⟩)
  | .draw (.blend alpha) s =>
    g.recolour (e.line s) (fun prior =>
      ⟨s.colour.red * alpha + prior.red * (1 - alpha),
        s.colour.green * alpha + prior.green * (1 - alpha),
        s.colour.blue * alpha + prior.blue * (1 - alpha),
        alpha + prior.alpha * (1 - alpha)⟩)

end Change

/-- What a history of changes makes of a grid. -/
def Grid.run {e : Extent} (g : Grid e) (history : List Change) : Grid e :=
  history.foldl (fun g c => c.onGrid g) g

def Picture.change (p : Picture) : Change → Picture
  | .clear c => p.clear c
  | .draw mode s => p.draw mode s
  | .drawShared s => p.drawShared s

def Picture.run (p : Picture) (history : List Change) : Picture := history.foldl change p

/-- A change, unless it stops at a pixel without samples. -/
def Picture.change? (p : Picture) : Change → Option Picture
  | .clear c => some (p.clear c)
  | .draw mode s => p.draw? mode s
  | .drawShared s => p.drawShared? s

def Picture.run? (p : Picture) (history : List Change) : Option Picture := history.foldlM change? p

namespace Extent

variable {e : Extent} (h : e.Valid)

include h

theorem nodup_line (s : Segment) : (e.line s).Nodup :=
  LSystem.nodup_line (plain_toPixel h s.start) (plain_toPixel h s.stop)

end Extent

namespace Picture

variable {p : Picture} {q r : Pixel}

theorem get_blank (e : Extent) (q : Pixel) : (blank e).get q = ⟨0, 0, 0, 0⟩ := by
  have zero (c : Nat) : (blank e).sample c = 0 := by
    simp only [sample, blank, Array.getElem?_replicate]
    split <;> rfl
  simp only [get, zero]

/-- The four samples of a pixel are its colour. -/
theorem get_eq {e : Extent} {c : Rgba} (extent : p.extent = e)
    (red : p.sample (e.cell q) = c.red) (green : p.sample (e.cell q + 1) = c.green)
    (blue : p.sample (e.cell q + 2) = c.blue) (alpha : p.sample (e.cell q + 3) = c.alpha) :
    p.get q = c := by
  subst e
  simp only [get, red, green, blue, alpha]

theorem sample_clear (p : Picture) (colour : Rgba) {c : Nat} (hc : c < 4 * p.extent.area) :
    (p.clear colour).sample c =
      if c % 4 = 0 then colour.red else if c % 4 = 1 then colour.green
      else if c % 4 = 2 then colour.blue else colour.alpha := by
  simp only [sample, clear, Array.getElem?_ofFn, hc, dite_true, Option.getD_some]

section Valid

variable (h : p.extent.Valid)

include h

theorem get_clear (hq : p.extent.Inside q) (colour : Rgba) : (p.clear colour).get q = colour := by
  have bound := Extent.cell_add_le h hq
  have first : p.extent.cell q % 4 = 0 := Nat.mul_mod_right 4 _
  have red := p.sample_clear colour (show p.extent.cell q < _ by omega)
  have green := p.sample_clear colour (show p.extent.cell q + 1 < _ by omega)
  have blue := p.sample_clear colour (show p.extent.cell q + 2 < _ by omega)
  have alpha := p.sample_clear colour (show p.extent.cell q + 3 < _ by omega)
  rw [if_pos first] at red
  rw [if_neg (by omega), if_pos (by omega)] at green
  rw [if_neg (by omega), if_neg (by omega), if_pos (by omega)] at blue
  rw [if_neg (by omega), if_neg (by omega), if_neg (by omega)] at alpha
  exact get_eq (extent_clear p colour) red green blue alpha

theorem get_set_self (hq : p.extent.Inside q) (colour : Rgba) : (p.set q colour).get q = colour := by
  have bound := Extent.cell_add_le h hq
  have red : p.extent.cell q < 4 * p.extent.area := by omega
  have green : p.extent.cell q + 1 < 4 * p.extent.area := by omega
  have blue : p.extent.cell q + 2 < 4 * p.extent.area := by omega
  have alpha : p.extent.cell q + 3 < 4 * p.extent.area := by omega
  apply get_eq (extent_set p q colour) <;>
    simp [set, sample_setSample, size_eq, red, green, blue, alpha]

theorem get_set_of_ne (hq : p.extent.Inside q) (hr : p.extent.Inside r) (other : r ≠ q)
    (colour : Rgba) : (p.set q colour).get r = p.get r := by
  have kept {k : Nat} (hk : k < 4) :
      (p.set q colour).sample (p.extent.cell r + k) = p.sample (p.extent.cell r + k) := by
    have own : p.extent.cell r + k ∈ p.extent.cells r := Extent.mem_cells.mpr (by omega)
    apply sample_set_of_notMem
    intro shared
    exact other (Extent.eq_of_mem_cells h hr hq own shared)
  have red := kept (show 0 < 4 by decide)
  have green := kept (show 1 < 4 by decide)
  have blue := kept (show 2 < 4 by decide)
  have alpha := kept (show 3 < 4 by decide)
  exact get_eq (extent_set p q colour) red green blue alpha

end Valid

/-- Painting along a path that meets no pixel twice changes each of its pixels once. -/
theorem get_foldl_paintPixel {e : Extent} (h : e.Valid) (extent : p.extent = e)
    {path : List Pixel} (distinct : path.Nodup) (inside : ∀ r ∈ path, e.Inside r)
    (hq : e.Inside q) (mode : Mode) (colour : Rgb) :
    (path.foldl (paintPixel mode colour) p).get q =
      if q ∈ path then mode.apply colour (p.get q) else p.get q := by
  induction path generalizing p with
  | nil => rfl
  | cons place path ih =>
    obtain ⟨once, distinct⟩ := List.nodup_cons.mp distinct
    have here := inside place List.mem_cons_self
    have further : ∀ r ∈ path, e.Inside r := by
      intro r hr
      exact inside r (List.mem_cons_of_mem place hr)
    have painted := ih (p := p.paintPixel mode colour place) ((extent_set p place _).trans extent)
      distinct further
    subst e
    rw [List.foldl_cons, painted, paintPixel]
    by_cases same : q = place
    · subst q
      rw [if_neg once, if_pos List.mem_cons_self, get_set_self h here]
    · rw [get_set_of_ne h here hq same]
      simp only [List.mem_cons, same, false_or]

theorem get_draw (h : p.extent.Valid) {s : Segment}
    (start : p.extent.Inside (p.extent.toPixel s.start))
    (stop : p.extent.Inside (p.extent.toPixel s.stop)) (hq : p.extent.Inside q) (mode : Mode) :
    (p.draw mode s).get q =
      if q ∈ p.extent.line s then mode.apply s.colour (p.get q) else p.get q := by
  refine get_foldl_paintPixel h rfl (Extent.nodup_line h s) ?_ hq mode s.colour
  intro r hr
  exact Extent.inside_of_mem_line h start stop hr

/-- Of many segments those that come by a pixel change it, one after the other. -/
theorem get_foldl_draw {e : Extent} (h : e.Valid) (extent : p.extent = e) {segments : List Segment}
    (ends : ∀ s ∈ segments, e.Inside (e.toPixel s.start) ∧ e.Inside (e.toPixel s.stop))
    (hq : e.Inside q) (mode : Mode) :
    (segments.foldl (draw mode) p).get q =
      (segments.filter (fun s => q ∈ e.line s)).foldl (fun c s => mode.apply s.colour c)
        (p.get q) := by
  induction segments generalizing p with
  | nil => rfl
  | cons s segments ih =>
    obtain ⟨start, stop⟩ := ends s List.mem_cons_self
    have later := ih ((extent_draw mode p s).trans extent)
      (fun r hr => ends r (List.mem_cons_of_mem s hr))
    subst e
    rw [List.foldl_cons, later, get_draw h start stop hq]
    by_cases here : q ∈ p.extent.line s
    · simp only [here, if_true, List.filter_cons, decide_true, List.foldl_cons]
    · simp only [here, if_false, List.filter_cons, decide_false, Bool.false_eq_true]

/-- Four samples in a row are the channels of their pixel. -/
theorem take_drop_samples {c : Nat} (bound : c + 4 ≤ p.samples.size) :
    (p.samples.toList.drop c).take 4 =
      [p.sample c, p.sample (c + 1), p.sample (c + 2), p.sample (c + 3)] := by
  have at' (k : Nat) (hk : k < 4) : p.samples.toList[c + k]? = some (p.sample (c + k)) := by
    have inside : c + k < p.samples.size := by omega
    simp [sample, inside]
  apply List.ext_getElem?
  intro k
  rw [List.getElem?_take, List.getElem?_drop]
  rcases k with _ | _ | _ | _ | k
  · exact at' 0 (by decide)
  · exact at' 1 (by decide)
  · exact at' 2 (by decide)
  · exact at' 3 (by decide)
  · simp

/-- The samples of a picture are the channels of its pixels, row after row. -/
theorem samples_eq_listing (p : Picture) :
    p.samples.toList = (List.range p.extent.height).flatMap (fun y =>
      (List.range p.extent.width).flatMap (fun x => (p.get ⟨x, y⟩).channels)) := by
  have all : p.samples.toList.length = p.extent.height * (p.extent.width * 4) := by
    rw [Array.length_toList, p.size_eq, Extent.area]
    ring
  have rows := Dividing.flatMap_range_runs p.samples.toList (p.extent.width * 4) p.extent.height
  rw [← all, List.take_length] at rows
  rw [← rows]
  apply List.flatMap_congr
  intro y hy
  rw [List.mem_range] at hy
  have row := Dividing.flatMap_range_runs
    ((p.samples.toList.drop (y * (p.extent.width * 4))).take (p.extent.width * 4)) 4 p.extent.width
  rw [List.take_take, Nat.min_self] at row
  rw [← row]
  apply List.flatMap_congr
  intro x hx
  rw [List.mem_range] at hx
  have cell : y * (p.extent.width * 4) + x * 4 = p.extent.cell ⟨x, y⟩ := by
    rw [Extent.cell]
    ring
  have before : y * (p.extent.width * 4) + p.extent.width * 4 ≤ p.samples.size := by
    rw [← Array.length_toList, all, ← Nat.succ_mul]
    exact Nat.mul_le_mul_right _ hy
  have short : min 4 (p.extent.width * 4 - x * 4) = 4 := by omega
  rw [List.drop_take, List.drop_drop, List.take_take, short, cell]
  exact take_drop_samples (by omega)

/-- The picture has the extent of the grid, and the same colour at every pixel. -/
structure Shows (p : Picture) {e : Extent} (g : Grid e) : Prop where
  extent : p.extent = e
  get : ∀ (x : Fin e.width) (y : Fin e.height), p.get ⟨x, y⟩ = g x y

theorem shows_blank (e : Extent) : (blank e).Shows (.solid ⟨0, 0, 0, 0⟩ : Grid e) :=
  ⟨rfl, fun x y => get_blank e ⟨x, y⟩⟩

namespace Shows

variable {e : Extent} {g : Grid e}

/-- A change with its ends inside does not stop. -/
theorem change?_eq (shows : p.Shows g) (valid : e.Valid) {c : Change} (ends : c.EndsInside e) :
    p.change? c = some (p.change c) := by
  obtain ⟨rfl, -⟩ := shows
  cases c with
  | clear colour => rfl
  | draw mode s => exact (draw?_eq mode p s).trans (if_pos (Extent.takes_of_ends valid ends.1 ends.2))
  | drawShared s =>
    rw [Picture.change?, drawShared?_eq_draw?, draw?_eq,
      if_pos (Extent.takes_of_ends valid ends.1 ends.2), Picture.change, drawShared_eq_draw]

/-- A change of the picture is the change of the grid. -/
theorem change (shows : p.Shows g) (valid : e.Valid) {c : Change} (ends : c.EndsInside e) :
    (p.change c).Shows (c.onGrid g) := by
  obtain ⟨rfl, same⟩ := shows
  have inside (x : Fin p.extent.width) (y : Fin p.extent.height) : p.extent.Inside ⟨x, y⟩ :=
    ⟨x.isLt, y.isLt⟩
  have drawn {s : Segment} (ends : p.extent.Inside (p.extent.toPixel s.start) ∧
      p.extent.Inside (p.extent.toPixel s.stop)) (mode : Mode) :
      (p.draw mode s).Shows (g.recolour (p.extent.line s) (mode.apply s.colour)) := by
    refine ⟨p.extent_draw mode s, ?_⟩
    intro x y
    rw [get_draw valid ends.1 ends.2 (inside x y), same]
    rfl
  cases c with
  | clear colour =>
    refine ⟨rfl, ?_⟩
    intro x y
    exact get_clear valid (inside x y) colour
  | draw mode s =>
    cases mode with
    | overwrite => exact drawn ends .overwrite
    | blend alpha => exact drawn ends (.blend alpha)
  | drawShared s =>
    rw [Picture.change, drawShared_eq_draw]
    exact drawn ends .overwrite

theorem run (shows : p.Shows g) (valid : e.Valid) {history : List Change}
    (ends : ∀ c ∈ history, c.EndsInside e) : (p.run history).Shows (g.run history) := by
  induction history generalizing p g with
  | nil => exact shows
  | cons c history ih =>
    apply ih (shows.change valid (ends c List.mem_cons_self))
    intro d hd
    exact ends d (List.mem_cons_of_mem c hd)

theorem run?_eq (shows : p.Shows g) (valid : e.Valid) {history : List Change}
    (ends : ∀ c ∈ history, c.EndsInside e) : p.run? history = some (p.run history) := by
  induction history generalizing p g with
  | nil => rfl
  | cons c history ih =>
    obtain ⟨first, rest⟩ := List.forall_mem_cons.mp ends
    rw [Picture.run?, List.foldlM_cons, shows.change?_eq valid first]
    exact ih (shows.change valid first) rest

theorem samples_eq (shows : p.Shows g) : p.samples.toList = g.samples := by
  obtain ⟨rfl, same⟩ := shows
  rw [samples_eq_listing, Grid.samples, Grid.flatMap_range]
  apply List.flatMap_congr
  intro y _
  rw [Grid.flatMap_range]
  apply List.flatMap_congr
  intro x _
  rw [same]

theorem get?_eq (shows : p.Shows g) (place : Pixel) : p.get? place = g.get? place := by
  obtain ⟨rfl, same⟩ := shows
  by_cases inside : place.x < p.extent.width ∧ place.y < p.extent.height
  · rw [get?, Grid.get?, if_pos inside, dif_pos inside, ← same]
  · rw [get?, Grid.get?, if_neg inside, dif_neg inside]

end Shows

theorem create_eq_ok_iff {e : Extent} : create e = .ok p ↔ e.Valid ∧ blank e = p := by
  unfold create
  split
  · rename_i valid
    simp [valid]
  · rename_i invalid
    simp [invalid]

/-- Whatever is done to a picture is done to a grid, and nothing stops: the samples list the grid,
and pixels show it. A segment paints no pixel twice, and none that has no samples. -/
theorem history_refines_grid {e : Extent} (created : create e = .ok p) (history : List Change)
    (inside : ∀ c ∈ history, c.EndsInside e) :
    let after := p.run history
    let grid := (Grid.solid ⟨0, 0, 0, 0⟩ : Grid e).run history
    p.run? history = some after ∧ after.extent = e ∧ after.samples.size = 4 * e.width * e.height ∧
      after.samples.size < UInt64.size ∧ after.samples.toList = grid.samples ∧
      (∀ place, after.get? place = grid.get? place) ∧
      ∀ c ∈ history, (c.path e).Nodup ∧ ∀ q ∈ c.path e, e.cell q + 4 ≤ after.samples.size := by
  intro after grid
  obtain ⟨valid, rfl⟩ := create_eq_ok_iff.mp created
  have shows : after.Shows grid := (shows_blank e).run valid inside
  have size : after.samples.size = 4 * e.area := by rw [after.size_eq, shows.extent]
  refine ⟨(shows_blank e).run?_eq valid inside, shows.extent, ?_, ?_, shows.samples_eq,
    shows.get?_eq, ?_⟩
  · rw [size, Extent.area, Nat.mul_assoc]
  · rw [size]
    exact valid.2
  · intro c hc
    have ends := inside c hc
    rw [size]
    cases c with
    | clear colour => exact ⟨List.nodup_nil, fun q hq => absurd hq List.not_mem_nil⟩
    | draw mode s | drawShared s =>
      refine ⟨Extent.nodup_line valid s, ?_⟩
      intro q hq
      exact Extent.cell_add_le valid (Extent.inside_of_mem_line valid ends.1 ends.2 hq)

/-- Half a line over a line of a shared writer, on a cleared picture. -/
theorem history_refines_grid_crossed :
    let e : Extent := ⟨4, 3⟩
    let across : Segment := ⟨⟨0, 0⟩, ⟨1, 1⟩, ⟨1, 0, 0⟩⟩
    let back : Segment := ⟨⟨1, 0⟩, ⟨0, 1⟩, ⟨0, 0, 1⟩⟩
    let history := [.clear ⟨1, 1, 1, 1⟩, .drawShared across,
      .draw (.blend (Float32.ofBits 0x3f000000)) back]
    create e = .ok (blank e) ∧ (∀ c ∈ history, c.EndsInside e) ∧
      ∃ after, (blank e).run? history = some after ∧
        after.samples.toList = ((Grid.solid ⟨0, 0, 0, 0⟩ : Grid e).run history).samples := by
  intro e across back history
  have created : create e = .ok (blank e) := create_eq_ok_iff.mpr ⟨by decide, rfl⟩
  have sound : e.Sound := by decide
  have inside : ∀ c ∈ history, c.EndsInside e := by
    intro c _
    cases c with
    | clear colour => exact trivial
    | draw mode s | drawShared s => exact ⟨e.inside_toPixel sound _, e.inside_toPixel sound _⟩
  obtain ⟨done, -, -, -, listed, -⟩ := history_refines_grid created history inside
  exact ⟨created, inside, _, done, listed⟩

end Picture
end LSystem
