import LSystem.Proofs.Faults
import LSystem.Proofs.Generation
import LSystem.Species
import Mathlib.Data.List.Infix

namespace LSystem

namespace Alphabet

/-- A word never closes a branch that it did not open. -/
def Grounded (a : Alphabet) (w : Word) : Prop := ∀ u, u <+: w → 0 ≤ a.height u

/-- A word never has more than `top` branches open. -/
def Within (a : Alphabet) (top : Nat) (w : Word) : Prop := ∀ u, u <+: w → a.height u ≤ top

/-- A word that closes what it opens, and nothing else. -/
structure Balanced (a : Alphabet) (w : Word) : Prop where
  grounded : a.Grounded w
  level : a.height w = 0

instance (a : Alphabet) (w : Word) : Decidable (a.Grounded w) :=
  decidable_of_iff (∀ u ∈ w.inits, 0 ≤ a.height u) (by simp only [List.mem_inits, Grounded])

instance (a : Alphabet) (top : Nat) (w : Word) : Decidable (a.Within top w) :=
  decidable_of_iff (∀ u ∈ w.inits, a.height u ≤ top) (by simp only [List.mem_inits, Within])

instance (a : Alphabet) (w : Word) : Decidable (a.Balanced w) :=
  decidable_of_iff (a.Grounded w ∧ a.height w = 0)
    ⟨fun ⟨grounded, level⟩ => ⟨grounded, level⟩, fun ⟨grounded, level⟩ => ⟨grounded, level⟩⟩

variable {a : Alphabet} {w : Word} {i : Nat}

theorem Grounded.not_unopened (h : a.Grounded w) : ¬ a.Unopened w i := by
  rintro ⟨here, ground⟩
  obtain ⟨s, found, pop⟩ := Option.map_eq_some_iff.mp here
  have below := h (w.take (i + 1)) (List.take_prefix _ _)
  rw [List.take_add_one, found] at below
  simp [ground, rise_pop pop] at below

theorem Within.not_overfull {top limit : Nat} (h : a.Within top w) (room : top ≤ limit) :
    ¬ a.Overfull limit w i := by
  rintro ⟨here, full⟩
  obtain ⟨s, found, push⟩ := Option.map_eq_some_iff.mp here
  have above := h (w.take (i + 1)) (List.take_prefix _ _)
  rw [List.take_add_one, found] at above
  simp only [Option.toList_some, height_append, full, height_cons, rise_push push,
    height_nil] at above
  omega

end Alphabet

namespace Rules

/-- What begins the next word ends between two bodies or inside one. -/
theorem prefix_next {rules : Rules} {v w : Word} (hv : v <+: rules.next w) :
    ∃ u, u <+: w ∧ (v = rules.next u ∨
      ∃ e ∈ rules.entries, ∃ x, x <+: e.2 ∧ v = rules.next u ++ x) := by
  induction w generalizing v with
  | nil => exact ⟨[], List.nil_prefix, Or.inl (List.prefix_nil.mp hv)⟩
  | cons s w ih =>
    rw [next_cons] at hv
    rcases Word.prefix_append_cases hv with inside | ⟨y, hy, rfl⟩
    · cases hf : rules.find? s with
      | none =>
        have alone : rules.body s = [s] := by simp [body, hf]
        rw [alone] at inside
        rcases List.prefix_cons_iff.mp inside with rfl | ⟨x, rfl, hx⟩
        · exact ⟨[], List.nil_prefix, Or.inl rfl⟩
        · obtain rfl := List.prefix_nil.mp hx
          refine ⟨[s], by simp, Or.inl ?_⟩
          simp [next, hf]
      | some b =>
        have replaced : rules.body s = b := by simp [body, hf]
        rw [replaced] at inside
        exact ⟨[], List.nil_prefix, Or.inr ⟨(s, b), find?_eq_some_iff.mp hf, v, inside, rfl⟩⟩
    · obtain ⟨u, hu, ends⟩ := ih hy
      refine ⟨s :: u, List.cons_prefix_cons.mpr ⟨rfl, hu⟩, ?_⟩
      rcases ends with rfl | ⟨e, he, x, hx, rfl⟩
      · exact Or.inl (next_cons rules s u).symm
      · exact Or.inr ⟨e, he, x, hx, by rw [next_cons, List.append_assoc]⟩

end Rules

/-- The branches of a system nest: no rule replaces a push or a pop, every body is balanced, and
the start closes nothing that it did not open. -/
structure System.Nested (a : Alphabet) (g : System) : Prop where
  heads : ∀ e ∈ g.rules.entries, a.command e.1 ≠ .push ∧ a.command e.1 ≠ .pop
  bodies : ∀ e ∈ g.rules.entries, a.Balanced e.2
  start : a.Grounded g.start

instance (a : Alphabet) (g : System) : Decidable (g.Nested a) :=
  decidable_of_iff ((∀ e ∈ g.rules.entries, a.command e.1 ≠ .push ∧ a.command e.1 ≠ .pop) ∧
      (∀ e ∈ g.rules.entries, a.Balanced e.2) ∧ a.Grounded g.start)
    ⟨fun ⟨heads, bodies, start⟩ => ⟨heads, bodies, start⟩,
      fun ⟨heads, bodies, start⟩ => ⟨heads, bodies, start⟩⟩

namespace System.Nested

variable {a : Alphabet} {g : System} {u v w : Word}

/-- A symbol weighs as much as the body that replaces it. -/
theorem height_body (h : g.Nested a) (s : Symbol) : a.height (g.rules.body s) = a.rise s := by
  cases hf : g.rules.find? s with
  | none => simp [Rules.body, hf]
  | some body =>
    have entry := Rules.find?_eq_some_iff.mp hf
    obtain ⟨push, pop⟩ := h.heads _ entry
    have level := (h.bodies _ entry).level
    simp [Rules.body, hf, level, Alphabet.rise_level push pop]

/-- A generation keeps the height of a word. -/
theorem height_next (h : g.Nested a) (w : Word) : a.height (g.rules.next w) = a.height w := by
  induction w with
  | nil => rfl
  | cons s w ih => rw [Rules.next_cons, Alphabet.height_append, h.height_body, ih, a.height_cons]

/-- What begins the next word is as high as a beginning of the word, or as high as that and a
beginning of a body. -/
theorem height_prefix_next (h : g.Nested a) (hv : v <+: g.rules.next w) :
    ∃ u, u <+: w ∧ (a.height v = a.height u ∨
      ∃ e ∈ g.rules.entries, ∃ x, x <+: e.2 ∧ a.height v = a.height u + a.height x) := by
  obtain ⟨u, hu, rfl | ⟨e, he, x, hx, rfl⟩⟩ := Rules.prefix_next hv
  · exact ⟨u, hu, Or.inl (h.height_next u)⟩
  · refine ⟨u, hu, Or.inr ⟨e, he, x, hx, ?_⟩⟩
    rw [Alphabet.height_append, h.height_next]

theorem grounded_next (h : g.Nested a) (grounded : a.Grounded w) :
    a.Grounded (g.rules.next w) := by
  intro v hv
  obtain ⟨u, hu, same | ⟨e, he, x, hx, sum⟩⟩ := h.height_prefix_next hv
  · rw [same]
    exact grounded u hu
  · rw [sum]
    exact Int.add_nonneg (grounded u hu) ((h.bodies e he).grounded x hx)

/-- A generation opens at most as many branches inside others as a body can open. -/
theorem within_next (h : g.Nested a) {n top : Nat} (bodies : ∀ e ∈ g.rules.entries, a.Within top e.2)
    (within : a.Within n w) : a.Within (n + top) (g.rules.next w) := by
  intro v hv
  obtain ⟨u, hu, same | ⟨e, he, x, hx, sum⟩⟩ := h.height_prefix_next hv
  · have := within u hu
    omega
  · have low := within u hu
    have high := bodies e he x hx
    omega

theorem grounded_iterate (h : g.Nested a) (depth : Nat) :
    a.Grounded (g.rules.next^[depth] g.start) := by
  induction depth with
  | zero => exact h.start
  | succ depth ih =>
    rw [Function.iterate_succ_apply']
    exact h.grounded_next ih

theorem within_iterate (h : g.Nested a) {n top : Nat} (start : a.Within n g.start)
    (bodies : ∀ e ∈ g.rules.entries, a.Within top e.2) (depth : Nat) :
    a.Within (n + depth * top) (g.rules.next^[depth] g.start) := by
  induction depth with
  | zero =>
    rw [Nat.zero_mul]
    exact start
  | succ depth ih =>
    rw [Function.iterate_succ_apply', Nat.succ_mul, ← Nat.add_assoc]
    exact h.within_next bodies ih

end System.Nested

namespace Turtle

/-- A walk over an expansion of a system that nests never pops what was not pushed. It never pushes
too much either when its limit has room for the height of the start and for one body in every
generation. -/
theorem walk_nested_expansion {t : Turtle} {g : System} (nested : g.Nested t.alphabet)
    (r : Rewriter) (depth : Nat) (gait : Gait) (source : Option Generator) :
    let walk := t.walk gait source (r.expand g depth)
    (∀ i, walk.2 ≠ some (.nothingSaved i)) ∧
      ∀ start body : Nat, t.alphabet.Within start g.start →
        (∀ e ∈ g.rules.entries, t.alphabet.Within body e.2) →
          start + depth * body ≤ t.settings.maxSaved →
            (∀ i limit, walk.2 ≠ some (.tooManySaved i limit)) ∧ walk.2 = none := by
  intro walk
  have ends : t.Ends (g.rules.next^[depth] g.start) walk := by
    rw [← r.derive_eq_iterate]
    exact t.ends_walk gait source _
  have grounded := nested.grounded_iterate depth
  constructor
  · intro i fault
    generalize walk = r at ends fault
    cases ends with
    | through unbroken passed => cases fault
    | unopened first here passed => exact grounded.not_unopened here
    | overfull first here passed => cases fault
  · intro start body hs hb room
    have within := nested.within_iterate hs hb depth
    have done : walk.2 = none := by
      apply (ends.of_unbroken _).1
      rintro i (here | here)
      · exact grounded.not_unopened here
      · exact within.not_overfull room here
    refine ⟨?_, done⟩
    intro i limit fault
    rw [done] at fault
    cases fault

/-- The fern opens two branches in each other in every generation. -/
theorem walk_nested_expansion_fern :
    let t := Turtle.usual ⟨6, true⟩
    let g := Species.fern.system
    let gait : Gait := ⟨⟨⟨0, 0⟩, 0⟩, 1, quarterTurn, ⟨1, 0, 0⟩⟩
    let source := some (Generator.ofSeed 7)
    g.Nested t.alphabet ∧ t.alphabet.Within 0 g.start ∧
      (∀ e ∈ g.rules.entries, t.alphabet.Within 2 e.2) ∧ 0 + 3 * 2 ≤ t.settings.maxSaved ∧
      (t.walk gait source (Rewriter.alone.expand g 3)).2 = none := by
  intro t g gait source
  have nested : g.Nested t.alphabet := ⟨by decide +kernel, by decide +kernel, by decide +kernel⟩
  have start : t.alphabet.Within 0 g.start := by decide +kernel
  have bodies : ∀ e ∈ g.rules.entries, t.alphabet.Within 2 e.2 := by decide +kernel
  have room : 0 + 3 * 2 ≤ t.settings.maxSaved := by decide
  obtain ⟨-, high⟩ := walk_nested_expansion nested Rewriter.alone 3 gait source
  exact ⟨nested, start, bodies, room, (high 0 2 start bodies room).2⟩

end Turtle
end LSystem
