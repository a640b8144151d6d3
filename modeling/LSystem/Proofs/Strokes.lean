import LSystem.Proofs.Faults
import LSystem.Proofs.Grid
import LSystem.Proofs.LineEnds
import LSystem.Proofs.Workers
import Mathlib.Logic.Relation

namespace LSystem

/-- The origin, and where a segment ends. -/
def Reached (origin : Point) (segments : List Segment) (p : Point) : Prop :=
  p = origin ∨ ∃ s ∈ segments, s.stop = p

/-- Every segment begins at the origin or where one before it ends. -/
def Joined (origin : Point) (segments : List Segment) : Prop :=
  ∀ i s, segments[i]? = some s → Reached origin (segments.take i) s.start

variable {origin p : Point} {segments : List Segment} {s : Segment}

theorem Reached.append (h : Reached origin segments p) (more : List Segment) :
    Reached origin (segments ++ more) p := by
  rcases h with here | ⟨s, hs, stop⟩
  · exact Or.inl here
  · exact Or.inr ⟨s, List.mem_append_left more hs, stop⟩

theorem joined_append_singleton : Joined origin (segments ++ [s]) ↔
    Joined origin segments ∧ Reached origin segments s.start := by
  constructor
  · intro h
    refine ⟨?_, ?_⟩
    · intro i r hr
      have inside : i < segments.length := (List.getElem?_eq_some_iff.mp hr).1
      have reached := h i r ((List.getElem?_append_left inside).trans hr)
      rwa [List.take_append_of_le_length (Nat.le_of_lt inside)] at reached
    · have reached := h segments.length s (by simp)
      rwa [List.take_left] at reached
  · rintro ⟨joined, start⟩ i r hr
    rcases Nat.lt_or_ge i segments.length with earlier | last
    · rw [List.take_append_of_le_length (Nat.le_of_lt earlier)]
      exact joined i r ((List.getElem?_append_left earlier).symm.trans hr)
    · have bound := (List.getElem?_eq_some_iff.mp hr).1
      rw [List.length_append, List.length_singleton] at bound
      obtain rfl : i = segments.length := by omega
      rw [List.getElem?_concat_length] at hr
      cases hr
      rwa [List.take_left]

/-- Nothing is before the first segment, so that one begins at the origin. -/
theorem Joined.start_of_head? (h : Joined origin segments) (first : segments.head? = some s) :
    s.start = origin := by
  rw [List.head?_eq_getElem?] at first
  rcases h 0 s first with here | ⟨r, absent, -⟩
  · exact here
  · cases absent

namespace Turtle

variable {t : Turtle} {gait : Gait} {w : Walk}

/-- A walk whose segments are joined, and whose poses, the one that it has and those that it saved,
all stand where they reached. -/
structure Rooted (origin : Point) (w : Walk) : Prop where
  joined : Joined origin w.segments.toList
  pose : Reached origin w.segments.toList w.pose.position
  saved : ∀ pose ∈ w.saved, Reached origin w.segments.toList pose.position

theorem rooted_start (gait : Gait) (source : Option Generator) :
    Rooted gait.start.position (.start gait source) := by
  refine ⟨?_, Or.inl rfl, ?_⟩
  · intro i s absent
    cases absent
  · intro pose absent
    exact absurd absent (Array.not_mem_empty pose)

/-- Of all commands only a move takes the turtle away from what it drew. -/
theorem Rooted.obey (h : Rooted origin w) {c : Command} (still : c ≠ .move) :
    Rooted origin (t.obey gait w c) := by
  cases c with
  | draw =>
    have segments (next : Segment) : (w.segments.push next).toList = w.segments.toList ++ [next] :=
      Array.toList_push
    refine ⟨?_, ?_, ?_⟩
    · simp only [Turtle.obey, segments]
      exact joined_append_singleton.mpr ⟨h.joined, h.pose⟩
    · simp only [Turtle.obey, segments]
      exact Or.inr ⟨_, List.mem_append_right _ List.mem_cons_self, rfl⟩
    · intro pose hp
      simp only [Turtle.obey, segments]
      exact (h.saved pose hp).append _
  | move => exact absurd rfl still
  | push =>
    refine ⟨h.joined, h.pose, ?_⟩
    intro pose hp
    rcases Array.mem_push.mp hp with old | rfl
    · exact h.saved pose old
    · exact h.pose
  | pop =>
    refine ⟨h.joined, ?_, ?_⟩
    · cases last : w.saved.back? with
      | none =>
        simp only [Turtle.obey, last, Option.getD_none]
        exact h.pose
      | some pose =>
        simp only [Turtle.obey, last, Option.getD_some]
        exact h.saved pose (Array.mem_of_back? last)
    · intro pose hp
      rw [← Array.mem_toList_iff] at hp
      rw [Turtle.obey, Array.toList_pop] at hp
      exact h.saved pose (Array.mem_toList_iff.mp (List.mem_of_mem_dropLast hp))
  | turn sign | around | ignore => exact ⟨h.joined, h.pose, h.saved⟩

theorem Rooted.follow (h : Rooted origin w) {u : Word}
    (still : ∀ s ∈ u, t.alphabet.command s ≠ .move) :
    Rooted origin (t.follow gait w u).1 := by
  induction u generalizing w with
  | nil => exact h
  | cons s u ih =>
    simp only [Turtle.follow]
    split
    · exact h
    · apply ih (h.obey (still s List.mem_cons_self))
      intro r hr
      exact still r (List.mem_cons_of_mem s hr)

theorem joined_walk (gait : Gait) (source : Option Generator) {u : Word}
    (still : ∀ s ∈ u, t.alphabet.command s ≠ .move) :
    Joined gait.start.position (t.walk gait source u).1.segments.toList :=
  ((rooted_start gait source).follow still).joined

end Turtle

namespace Pixel

/-- Two pixels share a side or a corner, or they are the same. -/
def Touches (p q : Pixel) : Prop := p.gapX q ≤ 1 ∧ p.gapY q ≤ 1

theorem Touches.symm {p q : Pixel} (h : p.Touches q) : q.Touches p := by
  unfold Touches gapX gapY at h ⊢
  omega

/-- A step among these pixels, from one to another that it touches. -/
def Among (ps : List Pixel) (p q : Pixel) : Prop := p ∈ ps ∧ q ∈ ps ∧ p.Touches q

instance (ps : List Pixel) : Std.Symm (Among ps) where
  symm _ _ h := ⟨h.2.1, h.1, h.2.2.symm⟩

/-- Steps among these pixels lead from one to another. -/
def Linked (ps : List Pixel) : Pixel → Pixel → Prop := Relation.ReflTransGen (Among ps)

/-- Any two of these pixels are linked. -/
def Connected (ps : List Pixel) : Prop := ∀ p ∈ ps, ∀ q ∈ ps, Linked ps p q

variable {ps qs : List Pixel} {p q : Pixel}

theorem Linked.mono (h : Linked ps p q) (all : ∀ a ∈ ps, a ∈ qs) : Linked qs p q :=
  Relation.ReflTransGen.mono (fun _ _ step => ⟨all _ step.1, all _ step.2.1, step.2.2⟩) _ _ h

theorem Linked.symm (h : Linked ps p q) : Linked ps q p :=
  Relation.ReflTransGen.stdSymm.symm _ _ h

theorem Connected.of_root (root : ∀ q ∈ ps, Linked ps p q) : Connected ps := by
  intro a ha b hb
  exact (root a ha).symm.trans (root b hb)

/-- Along a chain there is a way from its first pixel to every other. -/
theorem linked_of_isChain (chain : ps.IsChain Touches) (first : ps.head? = some p) (hq : q ∈ ps) :
    Linked ps p q := by
  induction ps generalizing p with
  | nil => cases hq
  | cons a ps ih =>
    cases first
    cases ps with
    | nil =>
      rw [List.mem_singleton] at hq
      rw [hq]
      exact .refl
    | cons b ps =>
      obtain ⟨touches, chain⟩ := List.isChain_cons_cons.mp chain
      rcases List.mem_cons.mp hq with rfl | hq
      · exact .refl
      · have rest : Linked (a :: b :: ps) b q :=
          (ih chain rfl hq).mono (fun _ hc => List.mem_cons_of_mem a hc)
        exact .head ⟨List.mem_cons_self, List.mem_cons_of_mem a List.mem_cons_self, touches⟩ rest

end Pixel

open Pixel

namespace Extent

variable {e : Extent}

/-- The pixels that segments come by. -/
def pixels (e : Extent) (segments : List Segment) : List Pixel := segments.flatMap e.line

section Valid

variable (h : e.Valid)

include h

theorem linked_line {q : Pixel} (hq : q ∈ e.line s) : Linked (e.line s) (e.toPixel s.start) q := by
  have start := plain_toPixel h s.start
  have stop := plain_toPixel h s.stop
  refine linked_of_isChain ?_ (LineWalk.head?_line start stop) hq
  exact (LineWalk.isChain_line start stop).imp (fun _ _ step => ⟨step.1, step.2.1⟩)

theorem stop_mem_line (s : Segment) : e.toPixel s.stop ∈ e.line s :=
  List.mem_of_getLast? (LineWalk.getLast?_line (plain_toPixel h s.start) (plain_toPixel h s.stop))

/-- Where segments are joined their pixels are linked to that of the origin. -/
theorem linked_pixels (joined : Joined origin segments) :
    ∀ q ∈ e.pixels segments, Linked (e.pixels segments) (e.toPixel origin) q := by
  induction segments using List.reverseRecOn with
  | nil =>
    intro q absent
    cases absent
  | append_singleton segments s ih =>
    obtain ⟨joined, start⟩ := joined_append_singleton.mp joined
    have split : e.pixels (segments ++ [s]) = e.pixels segments ++ e.line s := by
      simp [pixels]
    have before {a b : Pixel} (way : Linked (e.pixels segments) a b) :
        Linked (e.pixels (segments ++ [s])) a b :=
      way.mono (fun _ hc => split ▸ List.mem_append_left _ hc)
    intro q hq
    rw [split] at hq
    rcases List.mem_append.mp hq with old | new
    · exact before (ih joined q old)
    · have along : Linked (e.pixels (segments ++ [s])) (e.toPixel s.start) q :=
        (linked_line h new).mono (fun _ hc => split ▸ List.mem_append_right _ hc)
      -- The new line hangs on the origin or on the last pixel of a line before it.
      rcases start with here | ⟨r, hr, here⟩
      · rwa [← here]
      · have there : e.toPixel r.stop ∈ e.pixels segments :=
          List.mem_flatMap.mpr ⟨r, hr, stop_mem_line h r⟩
        rw [← here] at along
        exact (before (ih joined _ there)).trans along

theorem toPixel_mem_pixels (joined : Joined origin segments) (drawn : segments ≠ []) :
    e.toPixel origin ∈ e.pixels segments := by
  obtain ⟨s, rest, rfl⟩ := List.exists_cons_of_ne_nil drawn
  rw [← joined.start_of_head? rfl]
  exact List.mem_flatMap.mpr ⟨s, List.mem_cons_self,
    start_mem_line (plain_toPixel h s.start) (plain_toPixel h s.stop)⟩

end Valid
end Extent

namespace Painter

variable {p : Painter} {f : Figure} {index : Nat} {w : Word} {drawn : Array Segment}

/-- A figure is drawn with one segment for each draw command of its word. -/
theorem size_of_outcome (h : p.outcome index f w = .ok drawn) :
    drawn.size = p.turtle.count w := by
  obtain ⟨done, rfl⟩ := (p.outcome_eq_ok_iff index f w drawn).mp h
  exact (p.turtle.ends_walk f.gait (p.source index) w).size_of_done done

/-- A pixel takes the colour of a figure as often as segments of it come by. -/
theorem get_drawOutcome {picture : Picture} (h : p.outcome index f w = .ok drawn)
    (valid : picture.extent.Valid)
    (ends : ∀ s ∈ drawn, picture.extent.Inside (picture.extent.toPixel s.start) ∧
      picture.extent.Inside (picture.extent.toPixel s.stop))
    {q : Pixel} (hq : picture.extent.Inside q) (mode : Mode) :
    (drawOutcome (Picture.draw mode) picture (p.outcome index f w)).get q =
      (mode.apply f.colour)^[drawn.toList.countP (q ∈ picture.extent.line ·)] (picture.get q) := by
  have inside (s : Segment) (hs : s ∈ drawn.toList) := ends s (Array.mem_toList_iff.mp hs)
  rw [h, drawOutcome, ← Array.foldl_toList, Picture.get_foldl_draw valid rfl inside hq,
    List.countP_eq_length_filter, ← List.foldl_const]
  apply List.foldl_ext
  intro c s hs
  have member := Array.mem_toList_iff.mp (List.mem_of_mem_filter hs)
  rw [colour_outcome h s member]

/-- Without a move every segment begins where the walk began or where a segment before it ends. A
figure that is drawn so is one connected stroke of pixels, and the pixel of its origin is one of
them. -/
theorem strokes_connected (p : Painter) {w : Word}
    (still : ∀ s ∈ w, p.turtle.alphabet.command s ≠ .move) :
    (∀ gait source, let segments := (p.turtle.walk gait source w).1.segments.toList
      Joined gait.start.position segments ∧
        ∀ s, segments.head? = some s → s.start = gait.start.position) ∧
      ∀ (index : Nat) (f : Figure) (drawn : Array Segment) (e : Extent),
        p.outcome index f w = .ok drawn → (∃ s ∈ w, p.turtle.alphabet.command s = .draw) →
        e.Valid → (∀ s ∈ drawn, e.Inside (e.toPixel s.start) ∧ e.Inside (e.toPixel s.stop)) →
          let painted := e.pixels drawn.toList
          Connected painted ∧ e.toPixel f.origin ∈ painted ∧ (∀ q ∈ painted, e.Inside q) ∧
            ∀ (picture : Picture) (mode : Mode) (q : Pixel), picture.extent = e → e.Inside q →
              let times := drawn.toList.countP (q ∈ e.line ·)
              (q ∈ painted ↔ 0 < times) ∧
                (drawOutcome (Picture.draw mode) picture (p.outcome index f w)).get q =
                  (mode.apply f.colour)^[times] (picture.get q) := by
  have joined (gait : Gait) (source : Option Generator) := p.turtle.joined_walk gait source still
  refine ⟨fun gait source => ⟨joined gait source, fun s => (joined gait source).start_of_head?⟩, ?_⟩
  intro index f drawn e given some_draw valid ends painted
  have joined : Joined f.origin drawn.toList := by
    obtain ⟨-, rfl⟩ := (p.outcome_eq_ok_iff index f w drawn).mp given
    exact joined f.gait (p.source index)
  have filled : drawn.toList ≠ [] := by
    have some_draw : 0 < p.turtle.count w :=
      List.countP_pos_iff.mpr (by simpa only [beq_iff_eq] using some_draw)
    rw [← List.length_pos_iff, Array.length_toList, size_of_outcome given]
    exact some_draw
  refine ⟨.of_root (Extent.linked_pixels valid joined), ?_, ?_, ?_⟩
  · exact Extent.toPixel_mem_pixels valid joined filled
  · intro q hq
    obtain ⟨s, hs, hq⟩ := List.mem_flatMap.mp hq
    obtain ⟨start, stop⟩ := ends s (Array.mem_toList_iff.mp hs)
    exact Extent.inside_of_mem_line valid start stop hq
  · rintro picture mode q rfl hq
    refine ⟨?_, get_drawOutcome given valid ends hq mode⟩
    simp only [painted, Extent.pixels, List.mem_flatMap, List.countP_pos_iff, decide_eq_true_eq]

/-- A fork whose two arms leave from the end of its trunk. -/
theorem strokes_connected_forked :
    let p : Painter := { Painter.usual with turtle := .usual ⟨1, false⟩ }
    let w := Word.ofText "F[+F]-F"
    let f : Figure := ⟨⟨"", ⟨[], .empty⟩, quarterTurn⟩, ⟨0, 0⟩, 0, 1, ⟨1, 0, 0⟩, 0, some ⟨0, w⟩⟩
    let e : Extent := ⟨5, 4⟩
    ∃ drawn, p.outcome 0 f w = .ok drawn ∧ Joined f.origin drawn.toList ∧
      Connected (e.pixels drawn.toList) ∧ e.toPixel f.origin ∈ e.pixels drawn.toList := by
  intro p w f e
  have still : ∀ s ∈ w, p.turtle.alphabet.command s ≠ .move := by decide +kernel
  have some_draw : ∃ s ∈ w, p.turtle.alphabet.command s = .draw := by decide +kernel
  have valid : e.Valid := by decide
  have sound : e.Sound := by decide
  have done : (p.turtle.walk f.gait (p.source 0) w).2 = none := by decide +kernel
  have given := (p.outcome_eq_ok_iff 0 f w _).mpr ⟨done, rfl⟩
  obtain ⟨joined, connected⟩ := strokes_connected p still
  obtain ⟨linked, origin, -⟩ := connected 0 f _ e given some_draw valid
    (fun s _ => ⟨e.inside_toPixel sound s.start, e.inside_toPixel sound s.stop⟩)
  exact ⟨_, given, (joined f.gait (p.source 0)).1, linked, origin⟩

end Painter
end LSystem
