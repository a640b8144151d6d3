import LSystem.Proofs.Faults

namespace LSystem

def Command.isTurn : Command → Bool
  | .turn _ => true
  | _ => false

/-- How many turns a word has. -/
def Alphabet.turns (a : Alphabet) (w : Word) : Nat := w.countP (fun s => (a.command s).isTurn)

/-- The symbol that a walk did not get past. -/
def Fault.position : Fault → Nat
  | .nothingSaved position => position
  | .tooManySaved position _ => position

/-- All that a walk has but its source. -/
def Walk.bare (w : Walk) : Walk := { w with source := none }

namespace Turtle

variable {t : Turtle} {gait : Gait} {w : Walk}

/-- A walk whose factors are given: the first turn from here on takes `factors 0`, the one after it
`factors 1`, whatever branches they are in. -/
def scaled (t : Turtle) (gait : Gait) (factors : Nat → Float32) :
    Walk → Word → Walk × Option Fault
  | w, [] => (w, none)
  | w, s :: rest =>
    match t.fault? w (t.alphabet.command s), t.alphabet.command s with
    | some f, _ => (w, some f)
    | none, .turn sign =>
      let pose := w.pose.turn (sign * gait.turn * factors 0)
      t.scaled gait (fun i => factors (i + 1)) { w with pose, read := w.read + 1 } rest
    | none, command => t.scaled gait factors (t.obey gait w command) rest

/-- What becomes of a source when `n` factors are taken from it. -/
def sourceAfter (t : Turtle) (source : Option Generator) : Nat → Option Generator
  | 0 => source
  | n + 1 => t.sourceAfter (t.factor source).2 n

/-- The factor that is taken after `i` others. -/
def factorAt (t : Turtle) (source : Option Generator) (i : Nat) : Float32 :=
  (t.factor (t.sourceAfter source i)).1

theorem sourceAfter_add (t : Turtle) (source : Option Generator) (m n : Nat) :
    t.sourceAfter source (m + n) = t.sourceAfter (t.sourceAfter source m) n := by
  induction m generalizing source with
  | zero => rw [Nat.zero_add]; rfl
  | succ m ih => rw [Nat.succ_add]; exact ih _

section Jittery

variable (on : t.settings.jitter = true)

include on

theorem factor_jittery (g : Generator) : t.factor (some g) = (g.draw.1, some g.next) := by
  simp [factor, on, Generator.draw]

theorem sourceAfter_jittery (g : Generator) (n : Nat) :
    t.sourceAfter (some g) n = some (g.skip n) := by
  induction n generalizing g with
  | zero => rfl
  | succ n ih =>
    rw [sourceAfter, factor_jittery on]
    exact ih g.next

theorem factorAt_jittery (g : Generator) : t.factorAt (some g) = g.drawAt := by
  funext i
  rw [factorAt, sourceAfter_jittery on, factor_jittery on, Generator.drawAt]

end Jittery

/-- A turtle that cannot take from its source leaves it as it is. -/
def Steady (t : Turtle) (source : Option Generator) : Prop := t.factor source = (1, source)

theorem steady_none (t : Turtle) : t.Steady none := rfl

theorem steady_of_even (off : t.settings.jitter = false) (g : Generator) :
    t.Steady (some g) := by
  simp [Steady, factor, off]

theorem Steady.sourceAfter {source : Option Generator} (h : t.Steady source) (n : Nat) :
    t.sourceAfter source n = source := by
  induction n with
  | zero => rfl
  | succ n ih => rw [Turtle.sourceAfter, h, ih]

theorem Steady.factorAt {source : Option Generator} (h : t.Steady source) :
    t.factorAt source = fun _ => 1 := by
  funext i
  rw [Turtle.factorAt, h.sourceAfter, h]

/-- A turn takes one factor, and no other command takes any. -/
theorem source_obey (t : Turtle) (gait : Gait) (w : Walk) (c : Command) :
    (t.obey gait w c).source = t.sourceAfter w.source (if c.isTurn then 1 else 0) := by
  cases c <;> rfl

/-- A walk that got through `u` and has taken a factor for each turn of `u` goes on to take one for
each turn that it gets through. -/
theorem source_follow {source : Option Generator} {u : Word} (read : w.read = u.length)
    (taken : w.source = t.sourceAfter source (t.alphabet.turns u)) (v : Word) :
    (t.follow gait w v).1.source = t.sourceAfter source
      (t.alphabet.turns ((u ++ v).take (t.follow gait w v).1.read)) := by
  -- On what is left, for any `u` before it: every symbol that is got through moves over to `u`.
  induction v generalizing u w with
  | nil => rw [follow, read, List.take_left, taken]
  | cons s v ih =>
    rw [follow]
    split
    · rw [read, List.take_left, taken]
    · have whole : u ++ s :: v = (u ++ [s]) ++ v := by simp
      rw [whole]
      apply ih
      · rw [read_obey, read, List.length_append, List.length_singleton]
      · have turns : t.alphabet.turns (u ++ [s]) =
            t.alphabet.turns u + if (t.alphabet.command s).isTurn then 1 else 0 := by
          rw [Alphabet.turns, List.countP_append, List.countP_singleton, Alphabet.turns]
        rw [source_obey, taken, turns, sourceAfter_add]

theorem source_walk (t : Turtle) (gait : Gait) (source : Option Generator) (u : Word) :
    (t.walk gait source u).1.source =
      t.sourceAfter source (t.alphabet.turns (u.take (t.walk gait source u).1.read)) :=
  source_follow (u := []) rfl rfl u

theorem fault?_bare (t : Turtle) (w : Walk) (c : Command) : t.fault? w.bare c = t.fault? w c := by
  cases c <;> rfl

/-- But for its source, a walk is the one whose factors are those that it takes from there. -/
theorem bare_follow (t : Turtle) (gait : Gait) (w : Walk) (u : Word) :
    ((t.follow gait w u).1.bare, (t.follow gait w u).2) =
      t.scaled gait (t.factorAt w.source) w.bare u := by
  induction u generalizing w with
  | nil => rfl
  | cons s u ih =>
    rw [follow, scaled, fault?_bare]
    cases t.fault? w (t.alphabet.command s) with
    | some f => rfl
    | none =>
      -- After a turn both sides take their factors from one place later on.
      have rest := ih (t.obey gait w (t.alphabet.command s))
      cases hc : t.alphabet.command s with
      | turn sign | draw | move | around | push | pop | ignore =>
        rw [hc] at rest
        exact rest

theorem bare_walk (t : Turtle) (gait : Gait) (source : Option Generator) (u : Word) :
    ((t.walk gait source u).1.bare, (t.walk gait source u).2) =
      t.scaled gait (t.factorAt source) (.start gait none) u :=
  bare_follow t gait (.start gait source) u

/-- Without a source the same alphabet and limit make the same walk, jitter or not. -/
theorem follow_sourceless {other : Turtle} (alphabet : other.alphabet = t.alphabet)
    (limit : other.settings.maxSaved = t.settings.maxSaved) (sourceless : w.source = none)
    (u : Word) : other.follow gait w u = t.follow gait w u := by
  induction u generalizing w with
  | nil => rfl
  | cons s u ih =>
    have fault (c : Command) : other.fault? w c = t.fault? w c := by
      cases c <;> simp only [fault?, limit]
    have obeyed (c : Command) : other.obey gait w c = t.obey gait w c := by
      cases c <;> simp only [obey, sourceless, factor]
    have left (c : Command) : (t.obey gait w c).source = none := by
      rw [source_obey, sourceless, t.steady_none.sourceAfter]
    rw [follow, follow, alphabet, fault]
    split
    · rfl
    · rw [obeyed]
      exact ih (left _)

theorem walk_sourceless {other : Turtle} (alphabet : other.alphabet = t.alphabet)
    (limit : other.settings.maxSaved = t.settings.maxSaved) (gait : Gait) (u : Word) :
    other.walk gait none u = t.walk gait none u := follow_sourceless alphabet limit rfl u

/-- A source from which nothing is taken changes nothing else. -/
theorem walk_of_steady {source : Option Generator} (h : t.Steady source) (gait : Gait) (u : Word) :
    t.walk gait source u = ({ (t.walk gait none u).1 with source }, (t.walk gait none u).2) := by
  have same := t.bare_walk gait source u
  have left := t.source_walk gait source u
  rw [h.factorAt, ← t.steady_none.factorAt, ← bare_walk, Prod.mk.injEq] at same
  rw [h.sourceAfter] at left
  refine Prod.ext ?_ same.2
  calc (t.walk gait source u).1
      = { (t.walk gait source u).1.bare with source := (t.walk gait source u).1.source } := rfl
    _ = { (t.walk gait none u).1.bare with source } := by rw [same.1, left]

/-- With jitter the factors are the draws of the source in their order, one for each turn. -/
theorem walk_jittery (on : t.settings.jitter = true) (gait : Gait) (g : Generator) (u : Word) :
    let walk := t.walk gait (some g) u
    (walk.1.bare, walk.2) = t.scaled gait g.drawAt (.start gait none) u ∧
      walk.1.source = some (g.skip (t.alphabet.turns (u.take walk.1.read))) := by
  refine ⟨?_, ?_⟩
  · rw [bare_walk, factorAt_jittery on]
  · rw [source_walk, sourceAfter_jittery on]

theorem Ends.read_eq {y : Word} {r : Walk × Option Fault} (h : t.Ends y r) :
    r.1.read = r.2.elim y.length Fault.position := by
  cases h with
  | through unbroken passed => exact passed.read
  | unopened first here passed | overfull first here passed =>
    exact passed.read.trans (List.length_take_of_le (Nat.le_of_lt first.1.lt_length))

/-- With jitter on, a walk takes one draw for each turn that it gets through, in the order of the
word: no other command takes any, a pop gives none back, and a later walk on the same source goes on
where this one stopped, at a fault or not. With jitter off the source is left as it was and the walk
is the one without a source, which in turn is the same with jitter on. -/
theorem walk_draws_by_turns (t : Turtle) (gait : Gait) (g : Generator) (w : Word) :
    let walk := t.walk gait (some g) w
    let turns := t.alphabet.turns (w.take walk.1.read)
    walk.1.read = walk.2.elim w.length Fault.position ∧
    (t.settings.jitter = true →
      (walk.1.bare, walk.2) = t.scaled gait g.drawAt (.start gait none) w ∧
      walk.1.source = some (g.skip turns) ∧
      ∀ (other : Turtle) (gait' : Gait) (v : Word), other.settings.jitter = true →
        let later := other.walk gait' walk.1.source v
        (later.1.bare, later.2) =
          other.scaled gait' (fun i => g.drawAt (turns + i)) (.start gait' none) v ∧
        later.1.source = some (g.skip (turns + other.alphabet.turns (v.take later.1.read)))) ∧
    (t.settings.jitter = false →
      let plain := t.walk gait none w
      walk = ({ plain.1 with source := some g }, plain.2) ∧
      { t with settings := { t.settings with jitter := true } }.walk gait none w = plain) := by
  intro walk turns
  refine ⟨(t.ends_walk gait (some g) w).read_eq, ?_, ?_⟩
  · intro on
    obtain ⟨drawn, source⟩ := walk_jittery on gait g w
    refine ⟨drawn, source, ?_⟩
    intro other gait' v on' later
    have given : later = other.walk gait' (some (g.skip turns)) v := by rw [← source]
    obtain ⟨drawn', source'⟩ := walk_jittery on' gait' (g.skip turns) v
    rw [given]
    refine ⟨?_, ?_⟩
    · rw [drawn', funext (g.drawAt_skip turns)]
    · rw [source', Generator.skip_add]
  · intro off plain
    refine ⟨walk_of_steady (steady_of_even off g) gait w, ?_⟩
    apply walk_sourceless
    · rfl
    · rfl

/-- The first word breaks at its second pop, after the turn in the branch and the one behind it: the
next walk takes the third draw. A half turn takes none. -/
theorem walk_draws_by_turns_broken :
    let t := Turtle.usual ⟨4, true⟩
    let even := Turtle.usual ⟨4, false⟩
    let gait : Gait := ⟨⟨⟨0, 0⟩, 0⟩, 1, quarterTurn, ⟨1, 0, 0⟩⟩
    let g := Generator.ofSeed 7
    let first := t.walk gait (some g) (Word.ofText "F[+|F]-F]+")
    let later := t.walk gait first.1.source (Word.ofText "F-F")
    first.2 = some (.nothingSaved 8) ∧ first.1.source = some (g.skip 2) ∧
      (later.1.bare, later.2) =
        t.scaled gait (fun i => g.drawAt (2 + i)) (.start gait none) (Word.ofText "F-F") ∧
      later.1.source = some (g.skip 3) ∧
      (even.walk gait (some g) (Word.ofText "F[+|F]-F]+")).1.source = some g := by
  intro t even gait g
  obtain ⟨-, jittery, -⟩ := walk_draws_by_turns t gait g (Word.ofText "F[+|F]-F]+")
  obtain ⟨-, -, off⟩ := walk_draws_by_turns even gait g (Word.ofText "F[+|F]-F]+")
  obtain ⟨-, source, next⟩ := jittery rfl
  obtain ⟨drawn, taken⟩ := next t gait (Word.ofText "F-F") rfl
  have fault : (t.walk gait (some g) (Word.ofText "F[+|F]-F]+")).2 = some (.nothingSaved 8) := by
    decide +kernel
  have two : t.alphabet.turns ((Word.ofText "F[+|F]-F]+").take
      (t.walk gait (some g) (Word.ofText "F[+|F]-F]+")).1.read) = 2 := by decide +kernel
  have one : t.alphabet.turns ((Word.ofText "F-F").take (t.walk gait
      (t.walk gait (some g) (Word.ofText "F[+|F]-F]+")).1.source (Word.ofText "F-F")).1.read) =
        1 := by decide +kernel
  rw [two] at source drawn taken
  rw [one] at taken
  exact ⟨fault, source, drawn, taken, congrArg (fun r => r.1.source) (off rfl).1⟩

end Turtle
end LSystem
