import LSystem.Proofs.Height
import Mathlib.Order.Bounds.Basic

namespace LSystem

namespace Alphabet

/-- Symbol `i` of a word is a pop where no branch is open. -/
def Unopened (a : Alphabet) (w : Word) (i : Nat) : Prop :=
  w[i]?.map a.command = some .pop ∧ a.height (w.take i) = 0

/-- Symbol `i` of a word is a push where as many branches are open as may be. -/
def Overfull (a : Alphabet) (limit : Nat) (w : Word) (i : Nat) : Prop :=
  w[i]?.map a.command = some .push ∧ a.height (w.take i) = limit

/-- No walk gets past symbol `i` of a word. -/
def Breaks (a : Alphabet) (limit : Nat) (w : Word) (i : Nat) : Prop :=
  a.Unopened w i ∨ a.Overfull limit w i

instance (a : Alphabet) (w : Word) (i : Nat) : Decidable (a.Unopened w i) :=
  inferInstanceAs (Decidable (_ ∧ _))

instance (a : Alphabet) (limit : Nat) (w : Word) (i : Nat) : Decidable (a.Overfull limit w i) :=
  inferInstanceAs (Decidable (_ ∧ _))

instance (a : Alphabet) (limit : Nat) (w : Word) (i : Nat) : Decidable (a.Breaks limit w i) :=
  inferInstanceAs (Decidable (_ ∨ _))

theorem unopened_here (a : Alphabet) (u : Word) (s : Symbol) (v : Word) :
    a.Unopened (u ++ s :: v) u.length ↔ a.command s = .pop ∧ a.height u = 0 := by
  simp [Unopened]

theorem overfull_here (a : Alphabet) (limit : Nat) (u : Word) (s : Symbol) (v : Word) :
    a.Overfull limit (u ++ s :: v) u.length ↔ a.command s = .push ∧ a.height u = limit := by
  simp [Overfull]

/-- Only a symbol that a word has can break it. -/
theorem Breaks.lt_length {a : Alphabet} {limit : Nat} {w : Word} {i : Nat}
    (h : a.Breaks limit w i) : i < w.length := by
  apply Nat.lt_of_not_le
  intro beyond
  rcases h with ⟨pop, -⟩ | ⟨push, -⟩
  · rw [List.getElem?_eq_none beyond] at pop
    cases pop
  · rw [List.getElem?_eq_none beyond] at push
    cases push

end Alphabet

namespace Turtle

variable {t : Turtle} {gait : Gait} {u v : Word} {s : Symbol} {w : Walk}

theorem count_append (t : Turtle) (u v : Word) : t.count (u ++ v) = t.count u + t.count v :=
  List.countP_append

/-- What the walk on hand saves and drops is what the height of its word counts. -/
theorem size_saved_obey (gait : Gait) (clear : t.fault? w (t.alphabet.command s) = none) :
    ((t.obey gait w (t.alphabet.command s)).saved.size : Int) =
      w.saved.size + t.alphabet.rise s := by
  cases hc : t.alphabet.command s with
  | push => simp [obey, Alphabet.rise_push hc]
  | pop =>
    have filled : 0 < w.saved.size := by
      rw [hc] at clear
      apply Array.size_pos_iff.mpr
      simpa [fault?] using clear
    simp only [obey, Array.size_pop, Alphabet.rise_pop hc]
    omega
  | draw | move | turn sign | around | ignore => simp [obey, Alphabet.rise, hc]

/-- The state of a walk that got through a word: it has read the word, holds a pose for every open
branch within its limit, and left a segment for every draw command. -/
structure Passed (t : Turtle) (u : Word) (w : Walk) : Prop where
  read : w.read = u.length
  saved : (w.saved.size : Int) = t.alphabet.height u
  room : w.saved.size ≤ t.settings.maxSaved
  drawn : w.segments.size = t.count u

theorem passed_start (t : Turtle) (gait : Gait) (source : Option Generator) :
    t.Passed [] (.start gait source) := by
  refine ⟨rfl, rfl, ?_, rfl⟩
  exact Nat.zero_le _

namespace Passed

variable (h : t.Passed u w)

include h

theorem fault_of_unopened (unopened : t.alphabet.Unopened (u ++ s :: v) u.length) :
    t.fault? w (t.alphabet.command s) = some (.nothingSaved u.length) := by
  obtain ⟨pop, ground⟩ := (t.alphabet.unopened_here u s v).mp unopened
  have empty : w.saved.size = 0 := by
    have := h.saved
    omega
  simp [pop, fault?, Array.eq_empty_of_size_eq_zero empty, h.read]

theorem fault_of_overfull
    (overfull : t.alphabet.Overfull t.settings.maxSaved (u ++ s :: v) u.length) :
    t.fault? w (t.alphabet.command s) = some (.tooManySaved u.length t.settings.maxSaved) := by
  obtain ⟨push, full⟩ := (t.alphabet.overfull_here _ u s v).mp overfull
  have all : t.settings.maxSaved ≤ w.saved.size := by
    have := h.saved
    omega
  simp [push, fault?, all, h.read]

/-- A walk that got through a word goes on with the next symbol unless that breaks the word. -/
theorem fault_of_unbroken
    (unbroken : ¬ t.alphabet.Breaks t.settings.maxSaved (u ++ s :: v) u.length) :
    t.fault? w (t.alphabet.command s) = none := by
  rw [Alphabet.Breaks, Alphabet.unopened_here, Alphabet.overfull_here] at unbroken
  have saved := h.saved
  have room := h.room
  cases hc : t.alphabet.command s with
  | push =>
    have free : w.saved.size < t.settings.maxSaved := by
      apply Nat.lt_of_le_of_ne room
      intro full
      exact unbroken (Or.inr ⟨hc, by omega⟩)
    simp [fault?, free]
  | pop =>
    have filled : w.saved ≠ #[] := by
      intro empty
      rw [empty] at saved
      exact unbroken (Or.inl ⟨hc, saved.symm⟩)
    simp [fault?, filled]
  | draw | move | turn sign | around | ignore => rfl

theorem obey (clear : t.fault? w (t.alphabet.command s) = none) :
    t.Passed (u ++ [s]) (t.obey gait w (t.alphabet.command s)) := by
  have saved := size_saved_obey gait clear
  refine ⟨?_, ?_, ?_, ?_⟩
  · rw [read_obey, h.read, List.length_append, List.length_singleton]
  · rw [saved, h.saved, Alphabet.height_append]
    simp
  · have room := h.room
    cases hc : t.alphabet.command s with
    | push =>
      have free : w.saved.size < t.settings.maxSaved := by
        apply Nat.lt_of_not_le
        intro full
        simp [hc, fault?, full] at clear
      rw [Alphabet.rise_push hc] at saved
      rw [hc] at saved
      omega
    | pop =>
      rw [Alphabet.rise_pop hc, hc] at saved
      omega
    | draw | move | turn sign | around | ignore => exact room
  · rw [size_segments_obey, h.drawn, count_append]
    simp [count]

end Passed

/-- How a walk over a word can end: it gets through a word that nothing breaks, or it stops where
the word breaks first, with what it drew before. -/
inductive Ends (t : Turtle) (w : Word) : Walk × Option Fault → Prop where
  | through {walk : Walk} (unbroken : ∀ i, ¬ t.alphabet.Breaks t.settings.maxSaved w i)
      (passed : t.Passed w walk) : Ends t w (walk, none)
  | unopened {walk : Walk} {i : Nat}
      (first : IsLeast {j | t.alphabet.Breaks t.settings.maxSaved w j} i)
      (here : t.alphabet.Unopened w i) (passed : t.Passed (w.take i) walk) :
      Ends t w (walk, some (.nothingSaved i))
  | overfull {walk : Walk} {i : Nat}
      (first : IsLeast {j | t.alphabet.Breaks t.settings.maxSaved w j} i)
      (here : t.alphabet.Overfull t.settings.maxSaved w i) (passed : t.Passed (w.take i) walk) :
      Ends t w (walk, some (.tooManySaved i t.settings.maxSaved))

/-- A walk that got through the first part of a word ends as the whole word makes it end. -/
theorem Passed.ends_follow (h : t.Passed u w) (v : Word)
    (before : ∀ i < u.length, ¬ t.alphabet.Breaks t.settings.maxSaved (u ++ v) i) :
    t.Ends (u ++ v) (t.follow gait w v) := by
  induction v generalizing u w with
  | nil =>
    refine .through ?_ ?_
    · intro i breaks
      have bound := breaks.lt_length
      rw [List.append_nil] at bound
      exact before i bound breaks
    · rw [List.append_nil]
      exact h
  | cons s v ih =>
    -- No symbol before this one breaks the word, so this one is the first if it does.
    have first (here : t.alphabet.Breaks t.settings.maxSaved (u ++ s :: v) u.length) :
        IsLeast {j | t.alphabet.Breaks t.settings.maxSaved (u ++ s :: v) j} u.length := by
      refine ⟨here, ?_⟩
      intro j breaks
      apply Nat.le_of_not_lt
      intro earlier
      exact before j earlier breaks
    have passed : t.Passed ((u ++ s :: v).take u.length) w := by
      rw [List.take_left]
      exact h
    by_cases unopened : t.alphabet.Unopened (u ++ s :: v) u.length
    · simp only [follow, h.fault_of_unopened unopened]
      exact .unopened (first (Or.inl unopened)) unopened passed
    by_cases overfull : t.alphabet.Overfull t.settings.maxSaved (u ++ s :: v) u.length
    · simp only [follow, h.fault_of_overfull overfull]
      exact .overfull (first (Or.inr overfull)) overfull passed
    have unbroken : ¬ t.alphabet.Breaks t.settings.maxSaved (u ++ s :: v) u.length := by
      rintro (here | here)
      · exact unopened here
      · exact overfull here
    have clear := h.fault_of_unbroken unbroken
    have whole : u ++ s :: v = (u ++ [s]) ++ v := by simp
    simp only [follow, clear]
    rw [whole] at before unbroken ⊢
    apply ih (h.obey clear)
    intro i hi
    rw [List.length_append, List.length_singleton] at hi
    rcases Nat.lt_succ_iff_lt_or_eq.mp hi with earlier | rfl
    · exact before i earlier
    · exact unbroken

namespace Ends

variable {t' : Turtle} {r r' : Walk × Option Fault} {y : Word}

theorem faults_iff (h : t.Ends y r) :
    r.2 ≠ none ↔ ∃ i, t.alphabet.Breaks t.settings.maxSaved y i := by
  cases h with
  | through unbroken passed => simp [unbroken]
  | unopened first here passed => exact ⟨fun _ => ⟨_, first.1⟩, fun _ => nofun⟩
  | overfull first here passed => exact ⟨fun _ => ⟨_, first.1⟩, fun _ => nofun⟩

theorem of_unbroken (h : t.Ends y r)
    (unbroken : ∀ i, ¬ t.alphabet.Breaks t.settings.maxSaved y i) :
    r.2 = none ∧ r.1.segments.size = t.count y := by
  cases h with
  | through unbroken passed => exact ⟨rfl, passed.drawn⟩
  | unopened first here passed => exact absurd first.1 (unbroken _)
  | overfull first here passed => exact absurd first.1 (unbroken _)

/-- A walk that is done has left a segment for every draw command. -/
theorem size_of_done (h : t.Ends y r) (done : r.2 = none) : r.1.segments.size = t.count y := by
  cases h with
  | through unbroken passed => exact passed.drawn
  | unopened first here passed | overfull first here passed => cases done

/-- Where a word breaks first says which fault a walk over it has, and what it has drawn by then. -/
theorem of_first (h : t.Ends y r) {i : Nat}
    (least : IsLeast {j | t.alphabet.Breaks t.settings.maxSaved y j} i) :
    (t.alphabet.Unopened y i → r.2 = some (.nothingSaved i)) ∧
      (t.alphabet.Overfull t.settings.maxSaved y i →
        r.2 = some (.tooManySaved i t.settings.maxSaved)) ∧
      r.1.segments.size = t.count (y.take i) := by
  have either : ¬ (t.alphabet.Unopened y i ∧ t.alphabet.Overfull t.settings.maxSaved y i) := by
    rintro ⟨⟨pop, -⟩, push, -⟩
    rw [pop] at push
    cases push
  cases h with
  | through unbroken passed => exact absurd least.1 (unbroken i)
  | unopened first here passed =>
    obtain rfl := first.unique least
    exact ⟨fun _ => rfl, fun overfull => absurd ⟨here, overfull⟩ either, passed.drawn⟩
  | overfull first here passed =>
    obtain rfl := first.unique least
    exact ⟨fun unopened => absurd ⟨unopened, here⟩ either, fun _ => rfl, passed.drawn⟩

/-- Only the alphabet and the limit decide how a walk over a word ends. -/
theorem agree (h : t.Ends y r) (h' : t'.Ends y r') (alphabet : t'.alphabet = t.alphabet)
    (limit : t'.settings.maxSaved = t.settings.maxSaved) :
    r'.2 = r.2 ∧ r'.1.segments.size = r.1.segments.size := by
  have count (u : Word) : t'.count u = t.count u := by rw [Turtle.count, alphabet, Turtle.count]
  cases h with
  | through unbroken passed =>
    rw [← alphabet, ← limit] at unbroken
    obtain ⟨done, drawn⟩ := h'.of_unbroken unbroken
    exact ⟨done, by rw [drawn, count, passed.drawn]⟩
  | unopened first here passed =>
    rw [← alphabet, ← limit] at first
    rw [← alphabet] at here
    obtain ⟨fault, -, drawn⟩ := h'.of_first first
    exact ⟨fault here, by rw [drawn, count, passed.drawn]⟩
  | overfull first here passed =>
    rw [← alphabet, ← limit] at first here
    obtain ⟨-, fault, drawn⟩ := h'.of_first first
    exact ⟨limit ▸ fault here, by rw [drawn, count, passed.drawn]⟩

end Ends

theorem ends_walk (t : Turtle) (gait : Gait) (source : Option Generator) (w : Word) :
    t.Ends w (t.walk gait source w) := by
  apply (t.passed_start gait source).ends_follow w
  intro i hi
  cases hi

theorem path_eq_error_iff (t : Turtle) (gait : Gait) (source : Option Generator) (w : Word)
    (f : Fault) : t.path gait source w = .error f ↔ (t.walk gait source w).2 = some f := by
  unfold path
  cases t.walk gait source w with
  | mk done fault => cases fault <;> simp

theorem path_eq_ok_iff (t : Turtle) (gait : Gait) (source : Option Generator) (w : Word)
    (p : Path) : t.path gait source w = .ok p ↔
      (t.walk gait source w).2 = none ∧
        ⟨(t.walk gait source w).1.segments, (t.walk gait source w).1.pose⟩ = p := by
  unfold path
  cases t.walk gait source w with
  | mk done fault => cases fault <;> simp

/-- A walk faults exactly when its word breaks, where the word breaks first, and has left a segment
for each draw command before. Neither the gait, nor the jitter, nor the source have a say in it. -/
theorem walk_stops_at_first_break (t : Turtle) (gait : Gait) (source : Option Generator)
    (w : Word) :
    let limit := t.settings.maxSaved
    let walk := t.walk gait source w
    (walk.2 ≠ none ↔ ∃ i, t.alphabet.Breaks limit w i) ∧
      (∀ i, IsLeast {j | t.alphabet.Breaks limit w j} i →
        (t.alphabet.Unopened w i → walk.2 = some (.nothingSaved i)) ∧
          (t.alphabet.Overfull limit w i → walk.2 = some (.tooManySaved i limit)) ∧
          walk.1.segments.size = t.count (w.take i)) ∧
      ((∀ i, ¬ t.alphabet.Breaks limit w i) →
        walk.2 = none ∧ walk.1.segments.size = t.count w) ∧
      (∀ f, t.path gait source w = .error f ↔ walk.2 = some f) ∧
      (∀ p, t.path gait source w = .ok p ↔
        walk.2 = none ∧ ⟨walk.1.segments, walk.1.pose⟩ = p) ∧
      ∀ (other : Turtle) (gait' : Gait) (source' : Option Generator),
        other.alphabet = t.alphabet → other.settings.maxSaved = limit →
          (other.walk gait' source' w).2 = walk.2 ∧
            (other.walk gait' source' w).1.segments.size = walk.1.segments.size := by
  intro limit walk
  have ends := t.ends_walk gait source w
  refine ⟨ends.faults_iff, ?_, ends.of_unbroken, ?_, ?_, ?_⟩
  · intro i least
    exact ends.of_first least
  · exact t.path_eq_error_iff gait source w
  · exact t.path_eq_ok_iff gait source w
  · intro other gait' source' alphabet same
    exact ends.agree (other.ends_walk gait' source' w) alphabet same

/-- The second branch in a branch is one too many where one pose can be saved. -/
theorem walk_stops_at_first_break_nested :
    let t := Turtle.usual ⟨1, false⟩
    let gait : Gait := ⟨⟨⟨0, 0⟩, 0⟩, 1, quarterTurn, ⟨1, 0, 0⟩⟩
    let w := Word.ofText "F[+F]F[F[F]]]"
    let jittery := Turtle.usual ⟨1, true⟩
    let source := some (Generator.ofSeed 7)
    IsLeast {j | t.alphabet.Breaks 1 w j} 8 ∧ t.alphabet.Overfull 1 w 8 ∧
      (t.walk gait none w).2 = some (.tooManySaved 8 1) ∧
      (t.walk gait none w).1.segments.size = 4 ∧
      (jittery.walk gait source w).2 = some (.tooManySaved 8 1) := by
  intro t gait w jittery source
  have overfull : t.alphabet.Overfull 1 w 8 := by decide +kernel
  have least : IsLeast {j | t.alphabet.Breaks 1 w j} 8 := by
    refine ⟨Or.inr overfull, ?_⟩
    intro j breaks
    apply Nat.le_of_not_lt
    intro earlier
    have unbroken : ∀ j < 8, ¬ t.alphabet.Breaks 1 w j := by decide +kernel
    exact unbroken j earlier breaks
  obtain ⟨-, first, -, -, -, others⟩ := walk_stops_at_first_break t gait none w
  obtain ⟨-, fault, drawn⟩ := first 8 least
  have four : t.count (w.take 8) = 4 := by decide +kernel
  have same := (others jittery gait source rfl rfl).1
  exact ⟨least, overfull, fault overfull, drawn.trans four, same.trans (fault overfull)⟩

end Turtle
end LSystem
