import LSystem.Proofs.Nesting
import Mathlib.Tactic.Ring

namespace LSystem

namespace System

variable {g : System} {w : Word}

/-- The symbols that the words of a system can have. -/
def letters (g : System) : Word := g.start ++ g.rules.entries.flatMap Prod.snd

theorem letters_body {s r : Symbol} (hs : s ∈ g.letters) (hr : r ∈ g.rules.body s) :
    r ∈ g.letters := by
  cases hf : g.rules.find? s with
  | none =>
    rw [Rules.body, hf, Option.getD_none, List.mem_singleton] at hr
    exact hr ▸ hs
  | some body =>
    rw [Rules.body, hf, Option.getD_some] at hr
    exact List.mem_append_right _
      (List.mem_flatMap.mpr ⟨(s, body), Rules.find?_eq_some_iff.mp hf, hr⟩)

theorem letters_next (known : ∀ s ∈ w, s ∈ g.letters) : ∀ s ∈ g.rules.next w, s ∈ g.letters := by
  induction w with
  | nil => exact known
  | cons s w ih =>
    obtain ⟨head, rest⟩ := List.forall_mem_cons.mp known
    rw [Rules.next_cons]
    exact List.forall_mem_append.mpr ⟨fun r hr => letters_body head hr, ih rest⟩

theorem letters_iterate (g : System) (depth : Nat) :
    ∀ s ∈ g.rules.next^[depth] g.start, s ∈ g.letters := by
  induction depth with
  | zero => exact fun s hs => List.mem_append_left _ hs
  | succ depth ih =>
    rw [Function.iterate_succ_apply']
    exact letters_next ih

/-- Among the letters of a system each stroke gives `keep` strokes in the next word, and each tip
gives `new` more, and `split` tips. -/
structure Multiplies (g : System) (stroke tip : Symbol → Bool) (keep new split : Nat) : Prop where
  strokes : ∀ s ∈ g.letters,
    (g.rules.body s).countP stroke = keep * (stroke s).toNat + new * (tip s).toNat
  tips : ∀ s ∈ g.letters, (g.rules.body s).countP tip = split * (tip s).toNat

namespace Multiplies

variable {stroke tip : Symbol → Bool} {keep new split : Nat}
  (h : g.Multiplies stroke tip keep new split)

include h

theorem countP_next (known : ∀ s ∈ w, s ∈ g.letters) :
    (g.rules.next w).countP stroke = keep * w.countP stroke + new * w.countP tip ∧
      (g.rules.next w).countP tip = split * w.countP tip := by
  have count (p : Symbol → Bool) (s : Symbol) (w : Word) :
      (s :: w).countP p = (p s).toNat + w.countP p := by
    rw [List.countP_cons, Nat.add_comm]
    cases p s <;> rfl
  induction w with
  | nil => exact ⟨rfl, rfl⟩
  | cons s w ih =>
    obtain ⟨head, rest⟩ := List.forall_mem_cons.mp known
    obtain ⟨strokes, tips⟩ := ih rest
    rw [Rules.next_cons, List.countP_append, List.countP_append, h.strokes s head, h.tips s head,
      strokes, tips, count, count]
    constructor <;> ring

theorem countP_tip (depth : Nat) :
    (g.rules.next^[depth] g.start).countP tip = g.start.countP tip * split ^ depth := by
  induction depth with
  | zero => rw [Function.iterate_zero_apply, Nat.pow_zero, Nat.mul_one]
  | succ depth ih =>
    rw [Function.iterate_succ_apply', (h.countP_next (g.letters_iterate depth)).2, ih]
    ring

/-- The strokes of each word are counted by what satisfies their recurrence. -/
theorem countP_stroke (count : Nat → Nat) (zero : count 0 = g.start.countP stroke)
    (succ : ∀ d, count (d + 1) = keep * count d + new * (g.start.countP tip * split ^ d))
    (depth : Nat) : (g.rules.next^[depth] g.start).countP stroke = count depth := by
  induction depth with
  | zero => exact zero.symm
  | succ depth ih =>
    rw [Function.iterate_succ_apply', (h.countP_next (g.letters_iterate depth)).1, ih, h.countP_tip,
      succ]

end Multiplies
end System

namespace Alphabet

variable {a : Alphabet} {g : System} {s : Symbol} {u v w x y : Word} {limit : Nat} {height : Int}

theorem rise_le_one (a : Alphabet) (s : Symbol) : a.rise s ≤ 1 := by
  cases hc : a.command s <;> simp [rise, hc]

theorem rise_pos_iff : 0 < a.rise s ↔ a.command s = .push := by
  cases hc : a.command s <;> simp [rise, hc]

/-- What goes higher than the limit goes through a push at the limit. -/
theorem overfull_of_height (hu : u <+: w) (high : limit < a.height u) :
    ∃ i, a.Overfull limit w i := by
  induction u using List.reverseRecOn with
  | nil => exact absurd high (by simp)
  | append_singleton u s ih =>
    by_cases earlier : limit < a.height u
    · exact ih ((List.prefix_append u [s]).trans hu) earlier
    · have small := a.rise_le_one s
      rw [height_append, height_cons, height_nil] at high
      have push : a.command s = .push := rise_pos_iff.mp (by omega)
      obtain ⟨v, rfl⟩ := hu
      refine ⟨u.length, ?_⟩
      rw [List.append_assoc, List.singleton_append, overfull_here]
      exact ⟨push, by omega⟩

/-- The symbol stands in the word where so many branches are open. -/
def At (a : Alphabet) (s : Symbol) (height : Int) (w : Word) : Prop :=
  ∃ u v, w = u ++ s :: v ∧ a.height u = height

theorem At.next (nested : g.Nested a) (body : g.rules.body s = x ++ s :: y)
    (here : a.At s height w) : a.At s (height + a.height x) (g.rules.next w) := by
  obtain ⟨u, v, rfl, rfl⟩ := here
  refine ⟨g.rules.next u ++ x, y ++ g.rules.next v, ?_, ?_⟩
  · rw [Rules.next_append, Rules.next_cons, body]
    simp
  · rw [height_append, nested.height_next]

/-- A symbol that comes back in a branch of its own body gets deeper in every generation. -/
theorem At.iterate (nested : g.Nested a) (body : g.rules.body s = x ++ s :: y)
    (start : a.At s height g.start) (depth : Nat) :
    a.At s (height + depth * a.height x) (g.rules.next^[depth] g.start) := by
  induction depth with
  | zero => simpa using start
  | succ depth ih =>
    have deeper : height + (depth + 1 : Nat) * a.height x =
        height + depth * a.height x + a.height x := by
      push_cast
      ring
    rw [Function.iterate_succ_apply', deeper]
    exact ih.next nested body

theorem At.height_le (here : a.At s height w) (within : a.Within limit w) : height ≤ limit := by
  obtain ⟨u, v, rfl, rfl⟩ := here
  exact within u (List.prefix_append u (s :: v))

end Alphabet

namespace Turtle

/-- A walk over a word that closes only its own branches is done if the word stays within the limit,
and otherwise stops where it opens a branch too many. -/
theorem walk_of_grounded (t : Turtle) (gait : Gait) (source : Option Generator) {w : Word}
    (grounded : t.alphabet.Grounded w) :
    (t.alphabet.Within t.settings.maxSaved w → (t.walk gait source w).2 = none) ∧
      (¬ t.alphabet.Within t.settings.maxSaved w →
        ∃ i, (t.walk gait source w).2 = some (.tooManySaved i t.settings.maxSaved)) := by
  have ends := t.ends_walk gait source w
  constructor
  · intro within
    refine (ends.of_unbroken ?_).1
    rintro i (here | here)
    · exact grounded.not_unopened here
    · exact within.not_overfull le_rfl here
  · intro beyond
    simp only [Alphabet.Within, not_forall, not_le] at beyond
    obtain ⟨u, hu, high⟩ := beyond
    obtain ⟨i, overfull⟩ := Alphabet.overfull_of_height hu high
    generalize t.walk gait source w = walk at ends
    cases ends with
    | through unbroken passed => exact absurd (Or.inr overfull) (unbroken i)
    | unopened first here passed => exact absurd here grounded.not_unopened
    | overfull first here passed => exact ⟨_, rfl⟩

end Turtle

namespace Species

/-- The word that a species has grown to. -/
def generation (s : Species) (depth : Nat) : Word := s.system.rules.next^[depth] s.system.start

theorem expand_eq_generation (r : Rewriter) (s : Species) (depth : Nat) :
    r.expand s.system depth = s.generation depth := r.derive_eq_iterate ..

theorem nested_presets : ∀ s ∈ [koch, fern, dragon, sierpinski], s.system.Nested .standard := by
  decide +kernel

theorem preset_of_unbranched {s : Species} (hs : s ∈ [koch, dragon, sierpinski]) :
    s ∈ [koch, fern, dragon, sierpinski] :=
  (List.Sublist.cons_cons koch (.cons fern (.refl _))).subset hs

/-- Three of the presets have no branches. -/
theorem within_unbranched {s : Species} (hs : s ∈ [koch, dragon, sierpinski]) (depth limit : Nat) :
    Alphabet.standard.Within limit (s.generation depth) := by
  have nested := nested_presets s (preset_of_unbranched hs)
  have flat : ∀ s ∈ [koch, dragon, sierpinski], Alphabet.standard.Within 0 s.system.start ∧
      ∀ e ∈ s.system.rules.entries, Alphabet.standard.Within 0 e.2 := by decide +kernel
  obtain ⟨start, bodies⟩ := flat s hs
  intro u hu
  have low := nested.within_iterate start bodies depth u hu
  omega

/-- The fern opens two branches, one in the other, around a bud in each generation. -/
theorem within_fern_iff (depth limit : Nat) :
    Alphabet.standard.Within limit (fern.generation depth) ↔ 2 * depth ≤ limit := by
  have nested : fern.system.Nested .standard := nested_presets fern (by simp)
  constructor
  · intro within
    -- The bud that stands deepest has two more branches around it in each generation.
    have bud : fern.system.rules.body (Symbol.ofChar 'X') =
        Word.ofText "F-[[" ++ Symbol.ofChar 'X' :: Word.ofText "]+X]+F[+FX]-X" := by decide +kernel
    have start : Alphabet.standard.At (Symbol.ofChar 'X') 0 fern.system.start :=
      ⟨[], [], by decide +kernel, rfl⟩
    have open_branches : Alphabet.standard.height (Word.ofText "F-[[") = 2 := by decide +kernel
    have deep := (start.iterate nested bud depth).height_le within
    rw [open_branches] at deep
    omega
  · intro room u hu
    have start : Alphabet.standard.Within 0 fern.system.start := by decide +kernel
    have bodies : ∀ e ∈ fern.system.rules.entries, Alphabet.standard.Within 2 e.2 := by
      decide +kernel
    have low := nested.within_iterate start bodies depth u hu
    omega

/-- A symbol that leaves a segment. -/
def isStroke (s : Symbol) : Bool := Alphabet.standard.command s == .draw

/-- The symbols that a dragon grows at. -/
def isBud (s : Symbol) : Bool := s = Symbol.ofChar 'X' ∨ s = Symbol.ofChar 'Y'

/-- How the presets multiply, with the strokes and the tips that they begin with. The strokes of the
Koch curve are its tips. -/
theorem presets_multiply :
    (koch.system.Multiplies isStroke isStroke 0 5 5 ∧ koch.system.start.countP isStroke = 1) ∧
    (fern.system.Multiplies isStroke (· = Symbol.ofChar 'X') 2 3 4 ∧
      fern.system.start.countP isStroke = 0 ∧
      fern.system.start.countP (· = Symbol.ofChar 'X') = 1) ∧
    (dragon.system.Multiplies isStroke isBud 1 1 2 ∧
      dragon.system.start.countP isStroke = 1 ∧ dragon.system.start.countP isBud = 1) ∧
    sierpinski.system.Multiplies isStroke (· = Symbol.ofChar 'F') 2 3 3 ∧
      sierpinski.system.start.countP isStroke = 3 ∧
      sierpinski.system.start.countP (· = Symbol.ofChar 'F') = 1 := by
  refine ⟨⟨⟨?_, ?_⟩, ?_⟩, ⟨⟨?_, ?_⟩, ?_⟩, ⟨⟨?_, ?_⟩, ?_⟩, ⟨?_, ?_⟩, ?_⟩
  all_goals decide +kernel

theorem count_koch (depth : Nat) : (koch.generation depth).countP isStroke = 5 ^ depth := by
  obtain ⟨⟨multiplies, start⟩, -⟩ := presets_multiply
  rw [generation, multiplies.countP_tip, start, Nat.one_mul]

/-- The closed form satisfies the recurrence of the fern, where strokes double and each of the `4 ^ d`
buds leaves three. -/
theorem fern_strokes_succ (d : Nat) : 3 * 2 ^ (d + 1 - 1) * (2 ^ (d + 1) - 1) =
    2 * (3 * 2 ^ (d - 1) * (2 ^ d - 1)) + 3 * (1 * 4 ^ d) := by
  have double : 2 * (3 * 2 ^ (d - 1) * (2 ^ d - 1)) = 3 * 2 ^ d * (2 ^ d - 1) := by
    cases d with
    | zero => rfl
    | succ d =>
      rw [Nat.add_sub_cancel, ← Nat.mul_assoc]
      congr 1
      ring
  have square : 4 ^ d = 2 ^ d * 2 ^ d := by rw [← Nat.mul_pow]
  obtain ⟨q, power⟩ := Nat.exists_eq_add_one.mpr (Nat.two_pow_pos d)
  have odd : (q + 1) * 2 - 1 = 2 * q + 1 := by omega
  rw [double, square, Nat.add_sub_cancel, pow_succ, power, Nat.add_sub_cancel, odd]
  ring

/-- Every bud of the fern becomes four and leaves three strokes, and every stroke doubles. -/
theorem count_fern (depth : Nat) : (fern.generation depth).countP isStroke =
    3 * 2 ^ (depth - 1) * (2 ^ depth - 1) := by
  obtain ⟨-, ⟨multiplies, strokes, buds⟩, -⟩ := presets_multiply
  refine multiplies.countP_stroke (fun d => 3 * 2 ^ (d - 1) * (2 ^ d - 1)) strokes.symm ?_ depth
  intro d
  rw [buds]
  exact fern_strokes_succ d

theorem count_dragon (depth : Nat) : (dragon.generation depth).countP isStroke = 2 ^ depth := by
  obtain ⟨-, -, ⟨multiplies, strokes, buds⟩, -⟩ := presets_multiply
  refine multiplies.countP_stroke (2 ^ ·) strokes.symm ?_ depth
  intro d
  rw [buds]
  ring

theorem count_sierpinski (depth : Nat) :
    (sierpinski.generation depth).countP isStroke = 3 ^ (depth + 1) := by
  obtain ⟨-, -, -, multiplies, strokes, tips⟩ := presets_multiply
  refine multiplies.countP_stroke (fun d => 3 ^ (d + 1)) strokes.symm ?_ depth
  intro d
  rw [tips]
  ring

/-- How many segments each preset has at every depth, however it is expanded and walked. The fern
alone can fault, and does so where fewer than two poses a generation can be saved. -/
theorem census_of_presets (r : Rewriter) (depth : Nat) (settings : WalkSettings) (gait : Gait)
    (source : Option Generator) :
    let t := Turtle.usual settings
    let fernWalk := t.walk gait source (r.expand fern.system depth)
    t.count (r.expand koch.system depth) = 5 ^ depth ∧
    t.count (r.expand fern.system depth) = 3 * 2 ^ (depth - 1) * (2 ^ depth - 1) ∧
    t.count (r.expand dragon.system depth) = 2 ^ depth ∧
    t.count (r.expand sierpinski.system depth) = 3 ^ (depth + 1) ∧
    (∀ s ∈ [koch, dragon, sierpinski], (t.walk gait source (r.expand s.system depth)).2 = none) ∧
    (fernWalk.2 = none ↔ 2 * depth ≤ settings.maxSaved) ∧
    (fernWalk.2 ≠ none → ∃ i, fernWalk.2 = some (.tooManySaved i settings.maxSaved)) ∧
    ∀ s ∈ [koch, fern, dragon, sierpinski], ∀ done,
      t.walk gait source (r.expand s.system depth) = (done, none) →
        done.segments.size = t.count (r.expand s.system depth) := by
  intro t fernWalk
  have grounded {s : Species} (hs : s ∈ [koch, fern, dragon, sierpinski]) :
      Alphabet.standard.Grounded (s.generation depth) := (nested_presets s hs).grounded_iterate depth
  have walks {s : Species} (hs : s ∈ [koch, fern, dragon, sierpinski]) :=
    t.walk_of_grounded gait source (grounded hs)
  have fern_walks := @walks fern (by simp)
  simp only [fernWalk, expand_eq_generation]
  refine ⟨count_koch depth, count_fern depth, count_dragon depth, count_sierpinski depth,
    ?_, ?_, ?_, ?_⟩
  · intro s hs
    exact (walks (preset_of_unbranched hs)).1 (within_unbranched hs depth _)
  · rw [← within_fern_iff depth]
    refine ⟨?_, fern_walks.1⟩
    intro done
    by_contra beyond
    obtain ⟨i, fault⟩ := fern_walks.2 beyond
    rw [done] at fault
    cases fault
  · intro fault
    exact fern_walks.2 (fun within => fault (fern_walks.1 within))
  · intro s _ done walked
    have ends := t.ends_walk gait source (s.generation depth)
    rw [walked] at ends
    exact ends.size_of_done rfl

/-- Two poses a generation are just enough for a fern, and one less is too few. -/
theorem census_of_presets_tight :
    let gait : Gait := ⟨⟨⟨0, 0⟩, 0⟩, 1, quarterTurn, ⟨1, 0, 0⟩⟩
    (∃ done, (Turtle.usual ⟨6, false⟩).walk gait none (Rewriter.alone.expand fern.system 3) =
      (done, none) ∧ done.segments.size = 84) ∧
    ∃ i, ((Turtle.usual ⟨5, false⟩).walk gait none (Rewriter.alone.expand fern.system 3)).2 =
      some (.tooManySaved i 5) := by
  intro gait
  obtain ⟨-, count, -, -, -, done, -, size⟩ := census_of_presets .alone 3 ⟨6, false⟩ gait none
  obtain ⟨-, -, -, -, -, done', fault, -⟩ := census_of_presets .alone 3 ⟨5, false⟩ gait none
  have tight : ¬ 2 * 3 ≤ (⟨5, false⟩ : WalkSettings).maxSaved := by decide
  refine ⟨?_, fault (fun through => tight (done'.mp through))⟩
  have walked := done.mpr (by decide)
  have drawn := size fern (by simp)
  have strokes : 3 * 2 ^ (3 - 1) * (2 ^ 3 - 1) = 84 := by norm_num
  rw [count, strokes] at drawn
  generalize (Turtle.usual ⟨6, false⟩).walk gait none (Rewriter.alone.expand fern.system 3) = walk
    at walked drawn ⊢
  obtain ⟨last, stop⟩ := walk
  obtain rfl : stop = none := walked
  exact ⟨last, rfl, drawn last rfl⟩

end Species

end LSystem
