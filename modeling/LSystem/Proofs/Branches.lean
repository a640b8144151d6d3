import LSystem.Proofs.Height

namespace LSystem

/-- A word as branches: what stands between a push and its pop grows from the same place as what
comes after them. -/
inductive Growth where
  | tip
  | obey (command : Command) (rest : Growth)
  | fork (branch rest : Growth)
  | loose (rest : Growth)

/-- What is left of a walk over a part of a word. -/
structure Drawing where
  pose : Pose
  source : Option Generator
  segments : List Segment

namespace Growth

/-- Every push has its pop. -/
def Whole : Growth → Prop
  | .tip => True
  | .obey _ rest => rest.Whole
  | .fork branch rest => branch.Whole ∧ rest.Whole
  | .loose _ => False

/-- How a word is read as branches. A push may go without a pop, a pop never without a push. -/
inductive Reads (a : Alphabet) : Growth → Word → Prop
  | tip : Reads a .tip []
  | obey {s : Symbol} {rest : Growth} {w : Word}
      (push : a.command s ≠ .push) (pop : a.command s ≠ .pop)
      (tail : Reads a rest w) : Reads a (.obey (a.command s) rest) (s :: w)
  | fork {s p : Symbol} {branch rest : Growth} {u v : Word}
      (push : a.command s = .push) (inside : Reads a branch u) (whole : branch.Whole)
      (pop : a.command p = .pop) (tail : Reads a rest v) :
      Reads a (.fork branch rest) (s :: (u ++ p :: v))
  | loose {s : Symbol} {rest : Growth} {w : Word}
      (push : a.command s = .push) (tail : Reads a rest w) : Reads a (.loose rest) (s :: w)

end Growth

/-- What one command other than a push or a pop does to a pose. -/
def Turtle.act (t : Turtle) (gait : Gait) (pose : Pose) (source : Option Generator) :
    Command → Drawing
  | .draw =>
    ⟨pose.advance gait.step, source,
      [⟨pose.position, (pose.advance gait.step).position, gait.colour⟩]⟩
  | .move => ⟨pose.advance gait.step, source, []⟩
  | .turn sign =>
    match source, t.settings.jitter with
    | some g, true => ⟨pose.turn (sign * gait.turn * g.draw.1), some g.draw.2, []⟩
    | source, _ => ⟨pose.turn (sign * gait.turn * 1), source, []⟩
  | .around => ⟨pose.turn halfTurn, source, []⟩
  | .push | .pop | .ignore => ⟨pose, source, []⟩

/-- A branch starts from a copy of the pose and keeps what it took from the source; after it the
pose is the one before it. -/
def Growth.run (t : Turtle) (gait : Gait) : Growth → Pose → Option Generator → Drawing
  | .tip, pose, source => ⟨pose, source, []⟩
  | .obey command rest, pose, source =>
    let first := t.act gait pose source command
    let last := rest.run t gait first.pose first.source
    { last with segments := first.segments ++ last.segments }
  | .fork branch rest, pose, source =>
    let inside := branch.run t gait pose source
    let last := rest.run t gait pose inside.source
    { last with segments := inside.segments ++ last.segments }
  | .loose rest, pose, source => rest.run t gait pose source

namespace Growth

variable {a : Alphabet} {g h : Growth} {u v w : Word}

/-- A reading that is whole closes as many branches as it opens. -/
theorem Reads.height_eq_zero (hr : Reads a g w) (hw : g.Whole) : a.height w = 0 := by
  induction hr with
  | tip => rfl
  | obey push pop tail ih => simp [Alphabet.rise_level push pop, ih hw]
  | fork push inside whole pop tail ihu ihv =>
    simp [Alphabet.rise_push push, Alphabet.rise_pop pop, ihu whole, ihv hw.2]
  | loose push tail ih => exact hw.elim

theorem prefix_append_cons {p : Symbol} (hp : w <+: u ++ p :: v) :
    w <+: u ∨ ∃ x, x <+: v ∧ w = u ++ p :: x := by
  rcases Word.prefix_append_cases hp with h | ⟨y, hy, rfl⟩
  · exact Or.inl h
  · rcases List.prefix_cons_iff.mp hy with rfl | ⟨x, rfl, hx⟩
    · exact Or.inl (by simp)
    · exact Or.inr ⟨x, hx, rfl⟩

/-- What can be read never closes a branch that it did not open. -/
theorem Reads.height_nonneg (hr : Reads a g w) (hp : u <+: w) : 0 ≤ a.height u := by
  induction hr generalizing u with
  | tip => simp [List.prefix_nil.mp hp]
  | obey push pop tail ih =>
    rcases List.prefix_cons_iff.mp hp with rfl | ⟨x, rfl, hx⟩
    · simp
    · simpa [Alphabet.rise_level push pop] using ih hx
  | fork push inside whole pop tail ihu ihv =>
    rcases List.prefix_cons_iff.mp hp with rfl | ⟨x, rfl, hx⟩
    · simp
    · rcases prefix_append_cons hx with hx | ⟨y, hy, rfl⟩
      · have := ihu hx
        simp only [Alphabet.height_cons, Alphabet.rise_push push]
        omega
      · have := ihv hy
        simp only [Alphabet.height_cons, Alphabet.height_append, Alphabet.rise_push push,
          Alphabet.rise_pop pop, inside.height_eq_zero whole]
        omega
  | loose push tail ih =>
    rcases List.prefix_cons_iff.mp hp with rfl | ⟨x, rfl, hx⟩
    · simp
    · have := ih hx
      simp only [Alphabet.height_cons, Alphabet.rise_push push]
      omega

/-- Behind a whole reading the first pop is one too many. -/
theorem Reads.no_pop (hr : Reads a h w) (hu : Reads a g u) (whole : g.Whole) {p : Symbol}
    (pop : a.command p = .pop) : ¬ u ++ p :: v <+: w := by
  intro hp
  have short : u ++ [p] <+: w := by
    refine List.IsPrefix.trans ?_ hp
    simp
  have := hr.height_nonneg short
  simp [hu.height_eq_zero whole, Alphabet.rise_pop pop] at this

/-- The pop that ends a branch is found in one place only. -/
theorem Reads.inside_unique {u' v' : Word} {p q : Symbol} (hu : Reads a g u) (whole : g.Whole)
    (pop : a.command p = .pop) (hu' : Reads a h u') (whole' : h.Whole)
    (pop' : a.command q = .pop) (he : u ++ p :: v = u' ++ q :: v') :
    u = u' ∧ p = q ∧ v = v' := by
  rcases List.append_eq_append_iff.mp he with ⟨x, hx, hv⟩ | ⟨x, hx, hv⟩
  · cases x with
    | nil => simp_all
    | cons c x =>
      obtain ⟨rfl, rfl⟩ := List.cons_eq_cons.mp hv
      subst hx
      exact absurd List.prefix_rfl (hu'.no_pop hu whole pop)
  · cases x with
    | nil => simp_all
    | cons c x =>
      obtain ⟨rfl, rfl⟩ := List.cons_eq_cons.mp hv
      subst hx
      exact absurd List.prefix_rfl (hu.no_pop hu' whole' pop')

/-- A word has one reading at most. -/
theorem Reads.unique (hg : Reads a g w) (hh : Reads a h w) : g = h := by
  induction hg generalizing h with
  | tip => cases hh; rfl
  | obey push pop tail ih =>
    cases hh with
    | obey _ _ tail' => rw [ih tail']
    | fork push' => exact absurd push' push
    | loose push' => exact absurd push' push
  | @fork s p branch rest u v push inside whole pop tail ihu ihv =>
    generalize hw : s :: (u ++ p :: v) = w at hh
    cases hh with
    | tip => cases hw
    | obey push' =>
      obtain ⟨rfl, -⟩ := List.cons_eq_cons.mp hw
      exact absurd push push'
    | fork _ inside' whole' pop' tail' =>
      obtain ⟨rfl, he⟩ := List.cons_eq_cons.mp hw
      obtain ⟨rfl, rfl, rfl⟩ := inside.inside_unique whole pop inside' whole' pop' he
      rw [ihu inside', ihv tail']
    | loose _ tail' =>
      obtain ⟨rfl, rfl⟩ := List.cons_eq_cons.mp hw
      exact absurd List.prefix_rfl (tail'.no_pop inside whole pop)
  | loose push tail ih =>
    rename_i s rest w
    generalize hw : s :: w = w' at hh
    cases hh with
    | tip => cases hw
    | obey push' =>
      obtain ⟨rfl, -⟩ := List.cons_eq_cons.mp hw
      exact absurd push push'
    | fork _ inside whole pop _ =>
      obtain ⟨rfl, rfl⟩ := List.cons_eq_cons.mp hw
      exact absurd List.prefix_rfl (tail.no_pop inside whole pop)
    | loose _ tail' =>
      obtain ⟨rfl, rfl⟩ := List.cons_eq_cons.mp hw
      rw [ih tail']

/-- A word that cannot be read has a first pop without a push, behind a part that is whole. -/
theorem reads_or_breaks (a : Alphabet) (w : Word) :
    (∃ g, Reads a g w) ∨
      ∃ g u p v, w = u ++ p :: v ∧ Reads a g u ∧ g.Whole ∧ a.command p = .pop := by
  -- On the length: behind a branch the word goes on, and what is left is shorter.
  induction hn : w.length using Nat.strongRecOn generalizing w with
  | ind n ih =>
    cases w with
    | nil => exact Or.inl ⟨.tip, .tip⟩
    | cons s w =>
      have shorter : w.length < n := by simp [← hn]
      by_cases pop : a.command s = .pop
      · exact Or.inr ⟨.tip, [], s, w, rfl, .tip, trivial, pop⟩
      by_cases push : a.command s = .push
      · rcases ih w.length shorter w rfl with ⟨g, hg⟩ | ⟨g, u, p, v, rfl, hu, whole, pop'⟩
        · exact Or.inl ⟨.loose g, .loose push hg⟩
        · have behind : v.length < n := by
            simp only [List.length_append, List.length_cons] at shorter
            omega
          rcases ih v.length behind v rfl with ⟨h, hh⟩ | ⟨h, x, q, y, rfl, hx, whole', pop''⟩
          · exact Or.inl ⟨.fork g h, .fork push hu whole pop' hh⟩
          · exact Or.inr ⟨.fork g h, s :: (u ++ p :: x), q, y, by simp,
              .fork push hu whole pop' hx, ⟨whole, whole'⟩, pop''⟩
      · rcases ih w.length shorter w rfl with ⟨g, hg⟩ | ⟨g, u, p, v, rfl, hu, whole, pop'⟩
        · exact Or.inl ⟨_, .obey push pop hg⟩
        · exact Or.inr ⟨_, s :: u, p, v, rfl, .obey push pop hu, whole, pop'⟩

end Growth

namespace Turtle

variable {t : Turtle} {gait : Gait} {w : Walk}

/-- What a part of a walk adds to the walk before it. -/
structure Adds (before after : Walk) (d : Drawing) : Prop where
  pose : after.pose = d.pose
  source : after.source = d.source
  segments : after.segments.toList = before.segments.toList ++ d.segments

/-- A command that is neither a push nor a pop is obeyed as it acts, and saves nothing. -/
theorem obey_adds (t : Turtle) (gait : Gait) (w : Walk) {c : Command} (push : c ≠ .push)
    (pop : c ≠ .pop) :
    Adds w (t.obey gait w c) (t.act gait w.pose w.source c) ∧
      (t.obey gait w c).saved = w.saved := by
  cases c with
  | push => exact absurd rfl push
  | pop => exact absurd rfl pop
  | turn sign =>
    cases hs : w.source <;> cases hj : t.settings.jitter <;>
      exact ⟨⟨by simp [obey, act, factor, hs, hj], by simp [obey, act, factor, hs, hj],
        by simp [obey, act, hs, hj]⟩, rfl⟩
  | draw | move | around | ignore => exact ⟨⟨rfl, rfl, by simp [obey, act]⟩, rfl⟩

/-- A walk that gets through a symbol obeys it and goes on. -/
theorem follow_cons_done {s : Symbol} {rest : Word}
    (done : (t.follow gait w (s :: rest)).2 = none) :
    t.fault? w (t.alphabet.command s) = none ∧
      t.follow gait w (s :: rest) = t.follow gait (t.obey gait w (t.alphabet.command s)) rest := by
  simp only [follow] at done ⊢
  cases hf : t.fault? w (t.alphabet.command s) with
  | none => simp
  | some f => simp [hf] at done

/-- A walk that gets through two parts gets through the first, and does the second from there. -/
theorem follow_append_done {u v : Word} (done : (t.follow gait w (u ++ v)).2 = none) :
    (t.follow gait w u).2 = none ∧
      t.follow gait w (u ++ v) = t.follow gait (t.follow gait w u).1 v := by
  rw [follow_append] at done ⊢
  cases hf : t.follow gait w u with
  | mk after fault =>
    cases fault with
    | none => exact ⟨rfl, rfl⟩
    | some f => simp [hf] at done

/-- A pop takes back the pose that was pushed last. -/
theorem obey_pop {saved : Array Pose} {pose : Pose} (hs : w.saved = saved.push pose) :
    t.obey gait w .pop = { w with pose, saved, read := w.read + 1 } := by
  simp [obey, hs]

/-- The stack of poses does what the branches do, and a whole reading leaves it as it was. -/
theorem follow_reads {g : Growth} {u : Word} (hr : g.Reads t.alphabet u)
    (done : (t.follow gait w u).2 = none) :
    Adds w (t.follow gait w u).1 (g.run t gait w.pose w.source) ∧
      (g.Whole → (t.follow gait w u).1.saved = w.saved) := by
  induction hr generalizing w with
  | tip => exact ⟨⟨rfl, rfl, by simp [follow, Growth.run]⟩, fun _ => rfl⟩
  | obey push pop tail ih =>
    obtain ⟨-, he⟩ := follow_cons_done done
    obtain ⟨first, kept⟩ := t.obey_adds gait w push pop
    rw [he] at done ⊢
    obtain ⟨last, restored⟩ := ih done
    rw [first.pose, first.source] at last
    refine ⟨⟨last.pose, last.source, ?_⟩, fun whole => (restored whole).trans kept⟩
    rw [last.segments, first.segments, List.append_assoc]
    rfl
  | fork push inside whole pop tail ihu ihv =>
    obtain ⟨-, he⟩ := follow_cons_done done
    rw [he, push] at done ⊢
    obtain ⟨doneu, hu⟩ := follow_append_done done
    obtain ⟨branch, back⟩ := ihu doneu
    rw [hu] at done ⊢
    obtain ⟨-, hp⟩ := follow_cons_done done
    -- The pop finds the pose of the push on top, for the branch left the stack as it was.
    rw [hp, pop, obey_pop (back whole)] at done ⊢
    generalize (t.follow gait (t.obey gait w .push) _).1 = inner at *
    obtain ⟨pose, saved, read, taken, drawn⟩ := inner
    obtain ⟨-, rfl, segments⟩ := branch
    obtain ⟨last, restored⟩ := ihv done
    refine ⟨⟨last.pose, last.source, ?_⟩, fun hw => restored hw.2⟩
    rw [last.segments, segments, List.append_assoc]
    rfl
  | loose push tail ih =>
    obtain ⟨-, he⟩ := follow_cons_done done
    rw [he] at done ⊢
    rw [push] at done ⊢
    obtain ⟨last, -⟩ := ih done
    exact ⟨⟨last.pose, last.source, last.segments⟩, fun whole => whole.elim⟩

/-- A walk that ends without a fault has a reading, for a pop too many would have stopped it. -/
theorem reads_of_done {source : Option Generator} {u : Word}
    (done : (t.walk gait source u).2 = none) : ∃ g, Growth.Reads t.alphabet g u := by
  rcases Growth.reads_or_breaks t.alphabet u with hr | ⟨g, x, p, y, rfl, hx, whole, pop⟩
  · exact hr
  · obtain ⟨donex, hf⟩ := follow_append_done done
    have saved := (follow_reads hx donex).2 whole
    rw [walk, hf] at done
    obtain ⟨faultless, -⟩ := follow_cons_done done
    rw [pop, fault?, saved] at faultless
    cases faultless

/-- A walk without a fault draws the branches of its word: the word has one reading, and segments,
last pose and source are those of the reading. -/
theorem walk_by_branches (t : Turtle) (gait : Gait) (source : Option Generator) (w : Word)
    (done : (t.walk gait source w).2 = none) :
    ∃ g : Growth, (∀ h : Growth, h.Reads t.alphabet w ↔ h = g) ∧
      (t.walk gait source w).1.segments.toList = (g.run t gait gait.start source).segments ∧
      (t.walk gait source w).1.pose = (g.run t gait gait.start source).pose ∧
      (t.walk gait source w).1.source = (g.run t gait gait.start source).source := by
  obtain ⟨g, hg⟩ := reads_of_done done
  obtain ⟨adds, -⟩ := follow_reads hg done
  refine ⟨g, fun h => ⟨fun hh => hh.unique hg, fun he => he ▸ hg⟩, ?_, adds.pose, adds.source⟩
  exact adds.segments

theorem walk_by_branches_forked :
    let t := Turtle.usual ⟨2, true⟩
    let gait : Gait := ⟨⟨⟨0, 0⟩, 0⟩, 1, quarterTurn, ⟨1, 0, 0⟩⟩
    let source := some (Generator.ofSeed 7)
    let w := Word.ofText "F[+F[-f]|F]G[F+"
    (t.walk gait source w).2 = none ∧
      ∃ g : Growth, (∀ h : Growth, h.Reads t.alphabet w ↔ h = g) ∧
        (t.walk gait source w).1.segments.toList = (g.run t gait gait.start source).segments ∧
        (t.walk gait source w).1.pose = (g.run t gait gait.start source).pose ∧
        (t.walk gait source w).1.source = (g.run t gait gait.start source).source := by
  intro t gait source w
  have done : (t.walk gait source w).2 = none := by decide +kernel
  exact ⟨done, walk_by_branches t gait source w done⟩

end Turtle
end LSystem
