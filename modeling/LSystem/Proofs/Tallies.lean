import LSystem.Proofs.Faults
import LSystem.Proofs.Outcomes

namespace LSystem

namespace Alphabet

/-- A word that nothing breaks: it closes only branches that are open, and never opens more than
may be. -/
def Walkable (a : Alphabet) (limit : Nat) (w : Word) : Prop :=
  ∀ i < w.length, ¬ a.Breaks limit w i

instance (a : Alphabet) (limit : Nat) (w : Word) : Decidable (a.Walkable limit w) :=
  inferInstanceAs (Decidable (∀ i < w.length, ¬ a.Breaks limit w i))

theorem walkable_iff {a : Alphabet} {limit : Nat} {w : Word} :
    a.Walkable limit w ↔ ∀ i, ¬ a.Breaks limit w i := by
  constructor
  · intro walkable i breaks
    exact walkable i breaks.lt_length breaks
  · intro unbroken i _
    exact unbroken i

end Alphabet

namespace Painter

variable {p q : Painter}

/-- A figure can be drawn when its word is walkable. -/
def Draws (p : Painter) (f : Figure) : Prop :=
  p.turtle.alphabet.Walkable p.turtle.settings.maxSaved f.word

instance (p : Painter) : DecidablePred p.Draws := fun f =>
  inferInstanceAs (Decidable (p.turtle.alphabet.Walkable p.turtle.settings.maxSaved f.word))

theorem ofOutcome_of_draws {f : Figure} (draws : p.Draws f) (index : Nat) :
    Report.ofOutcome (p.outcome index f f.word) = ⟨1, p.turtle.count f.word, []⟩ := by
  obtain ⟨done, size⟩ := (p.turtle.ends_walk f.gait (p.source index) f.word).of_unbroken
    (Alphabet.walkable_iff.mp draws)
  have given := (p.outcome_eq_ok_iff index f f.word _).mpr ⟨done, rfl⟩
  rw [given, Report.ofOutcome, size]

theorem ofOutcome_of_not_draws {f : Figure} (broken : ¬ p.Draws f) (index : Nat) :
    ∃ fault, Report.ofOutcome (p.outcome index f f.word) =
      ⟨0, 0, [⟨index, f.species.name, fault⟩]⟩ := by
  rw [Draws, Alphabet.walkable_iff, not_forall_not] at broken
  have stopped := (p.turtle.ends_walk f.gait (p.source index) f.word).faults_iff.mpr broken
  unfold outcome
  cases walked : p.turtle.walk f.gait (p.source index) f.word with
  | mk walk fault =>
    rw [walked] at stopped
    cases fault with
    | none => exact absurd rfl stopped
    | some fault => exact ⟨fault, rfl⟩

/-- Of a figure only its name and its word show in a report, and of a painter only what its turtle
makes of the word. -/
theorem ofOutcome_agree (alphabet : q.turtle.alphabet = p.turtle.alphabet)
    (limit : q.turtle.settings.maxSaved = p.turtle.settings.maxSaved) {f g : Figure}
    (name : g.species.name = f.species.name) (word : g.word = f.word) (index : Nat) :
    Report.ofOutcome (q.outcome index g g.word) = Report.ofOutcome (p.outcome index f f.word) := by
  have ends := p.turtle.ends_walk f.gait (p.source index) f.word
  have ends' := q.turtle.ends_walk g.gait (q.source index) f.word
  obtain ⟨fault, size⟩ := ends.agree ends' alphabet limit
  rw [word]
  unfold outcome
  cases walked : p.turtle.walk f.gait (p.source index) f.word with
  | mk walk stop =>
    cases walked' : q.turtle.walk g.gait (q.source index) f.word with
    | mk walk' stop' =>
      rw [walked, walked'] at fault size
      obtain rfl : stop' = stop := fault
      cases stop' with
      | none => simp only [Report.ofOutcome, size]
      | some stop => simp only [Report.ofOutcome, name]

/-- A report accounts for figures numbered from `first` on: each is drawn or it has failed, and the
segments are those of the figures that are drawn. -/
structure Accounts (p : Painter) (first : Nat) (figures : List Figure) (r : Report) : Prop where
  all : r.figures + r.failures.length = figures.length
  indices : r.failures.map Failure.index =
    ((figures.zipIdx first).filter (fun a => ¬ p.Draws a.1)).map Prod.snd
  segments : r.segments = ((figures.filter p.Draws).map (fun f => p.turtle.count f.word)).sum

namespace Accounts

variable {first : Nat} {f : Figure} {figures : List Figure} {r : Report}

theorem draw (h : p.Accounts (first + 1) figures r) (draws : p.Draws f) :
    p.Accounts first (f :: figures) (Report.append ⟨1, p.turtle.count f.word, []⟩ r) := by
  obtain ⟨all, indices, segments⟩ := h
  refine ⟨?_, ?_, ?_⟩
  · simp only [Report.append, List.nil_append, List.length_cons]
    omega
  · simp [Report.append, draws, indices]
  · simp [Report.append, draws, segments]

theorem fail (h : p.Accounts (first + 1) figures r) (broken : ¬ p.Draws f) (name : String)
    (fault : Fault) :
    p.Accounts first (f :: figures) (Report.append ⟨0, 0, [⟨first, name, fault⟩]⟩ r) := by
  obtain ⟨all, indices, segments⟩ := h
  refine ⟨?_, ?_, ?_⟩
  · simp only [Report.append, List.length_append, List.length_cons, List.length_nil]
    omega
  · simp [Report.append, broken, indices]
  · simp [Report.append, broken, segments]

theorem ofOutcomes (p : Painter) (first : Nat) (figures : List Figure) (supply : Supply) :
    p.Accounts first figures (.ofOutcomes (p.outcomes first (expandAll figures supply).1)) := by
  rw [outcomes_expandAll]
  induction figures generalizing first with
  | nil => exact ⟨rfl, rfl, rfl⟩
  | cons f figures ih =>
    rw [List.zipIdx_cons, List.map_cons, Report.ofOutcomes_cons]
    by_cases draws : p.Draws f
    · rw [ofOutcome_of_draws draws]
      exact (ih (first + 1)).draw draws
    · obtain ⟨fault, failed⟩ := ofOutcome_of_not_draws draws first
      rw [failed]
      exact (ih (first + 1)).fail draws f.species.name fault

theorem increasing (h : p.Accounts first figures r) :
    (r.failures.map Failure.index).Pairwise (· < ·) := by
  have numbers : ((figures.zipIdx first).map Prod.snd).Pairwise (· < ·) := by
    rw [List.zipIdx_map_snd]
    exact List.pairwise_lt_range'
  rw [h.indices]
  exact numbers.sublist (List.filter_sublist.map Prod.snd)

theorem mem_indices_iff (h : p.Accounts 0 figures r) (i : Nat) :
    i ∈ r.failures.map Failure.index ↔ ∃ f, figures[i]? = some f ∧ ¬ p.Draws f := by
  rw [h.indices, List.mem_map]
  constructor
  · rintro ⟨⟨f, j⟩, hf, rfl⟩
    obtain ⟨here, broken⟩ := List.mem_filter.mp hf
    exact ⟨f, List.mk_mem_zipIdx_iff_getElem?.mp here, of_decide_eq_true broken⟩
  · rintro ⟨f, here, broken⟩
    refine ⟨(f, i), List.mem_filter.mpr ⟨?_, decide_eq_true broken⟩, rfl⟩
    exact List.mk_mem_zipIdx_iff_getElem?.mpr here

end Accounts

/-- Figures of the same names and words have the same report, whoever draws them. -/
theorem report_agree (alphabet : q.turtle.alphabet = p.turtle.alphabet)
    (limit : q.turtle.settings.maxSaved = p.turtle.settings.maxSaved) (first : Nat)
    {figures others : List Figure}
    (same : others.map (fun f => (f.species.name, f.word)) =
      figures.map (fun f => (f.species.name, f.word))) (supply supply' : Supply) :
    Report.ofOutcomes (q.outcomes first (expandAll others supply').1) =
      Report.ofOutcomes (p.outcomes first (expandAll figures supply).1) := by
  rw [outcomes_expandAll, outcomes_expandAll]
  induction figures generalizing others first with
  | nil =>
    rw [List.map_nil, List.map_eq_nil_iff] at same
    rw [same, List.zipIdx_nil, List.map_nil, List.map_nil]
  | cons f figures ih =>
    cases others with
    | nil => simp at same
    | cons g others =>
      simp only [List.map_cons, List.cons.injEq, Prod.mk.injEq] at same
      obtain ⟨⟨name, word⟩, same⟩ := same
      rw [List.zipIdx_cons, List.map_cons, Report.ofOutcomes_cons, List.zipIdx_cons, List.map_cons,
        Report.ofOutcomes_cons, ih (first + 1) same, ofOutcome_agree alphabet limit name word]

/-- A report tells how many figures were drawn and with how many segments, and which ones were not:
those whose words cannot be walked. Names and words alone decide it, under one alphabet and one
limit: not where figures stand and how they look, nor the jitter, the workers or the picture. -/
theorem report_counts_words (p : Painter) (figures : List Figure) (picture : Picture)
    (supply : Supply) :
    let r := (p.paint figures picture supply).report
    (∀ mode, (p.paintInOrder mode figures picture supply).report = r) ∧
      r.figures + r.failures.length = figures.length ∧
      (r.failures.map Failure.index).Pairwise (· < ·) ∧
      (∀ i, i ∈ r.failures.map Failure.index ↔ ∃ f, figures[i]? = some f ∧ ¬ p.Draws f) ∧
      r.segments = ((figures.filter p.Draws).map (fun f => p.turtle.count f.word)).sum ∧
      ∀ (q : Painter) (others : List Figure) (picture' : Picture) (supply' : Supply),
        q.turtle.alphabet = p.turtle.alphabet →
          q.turtle.settings.maxSaved = p.turtle.settings.maxSaved →
            others.map (fun f => (f.species.name, f.word)) =
              figures.map (fun f => (f.species.name, f.word)) →
              (q.paint others picture' supply').report = r ∧
                ∀ mode, (q.paintInOrder mode others picture' supply').report = r := by
  intro r
  have told : r = .ofOutcomes (p.outcomes 0 (expandAll figures supply).1) := report_paint ..
  have accounts := Accounts.ofOutcomes p 0 figures supply
  rw [← told] at accounts
  refine ⟨fun mode => told.symm, accounts.all, accounts.increasing, accounts.mem_indices_iff,
    accounts.segments, ?_⟩
  intro q others picture' supply' alphabet limit same
  have agree := report_agree alphabet limit 0 same supply supply'
  rw [← told] at agree
  exact ⟨(report_paint ..).trans agree, fun mode => agree⟩

/-- The same three words in another place, with another turn and with jitter, by more workers than
there are figures; two of them open or close a branch too many. -/
theorem report_counts_words_elsewhere :
    let figure (text : String) (origin : Point) (turn : Float32) : Figure :=
      ⟨⟨"", ⟨[], .empty⟩, turn⟩, origin, turn, 1, ⟨1, 0, 0⟩, 0, some ⟨0, Word.ofText text⟩⟩
    let texts := ["F]F", "F[+F]F", "[[F"]
    let here := texts.map (figure · ⟨0, 0⟩ quarterTurn)
    let there := texts.map (figure · ⟨1, 1⟩ thirdTurn)
    let p : Painter := ⟨1, .usual ⟨1, false⟩, 0⟩
    let q : Painter := ⟨5, .usual ⟨1, true⟩, 7⟩
    let r := (p.paint here (.blank ⟨4, 3⟩) ⟨1⟩).report
    q.turtle.alphabet = p.turtle.alphabet ∧ r.segments = 3 ∧
      (∀ i, i ∈ r.failures.map Failure.index ↔ ∃ f, here[i]? = some f ∧ ¬ p.Draws f) ∧
      (q.paint there (.blank ⟨9, 9⟩) ⟨1⟩).report = r := by
  intro figure texts here there p q r
  obtain ⟨-, -, -, indices, segments, agree⟩ :=
    report_counts_words p here (.blank ⟨4, 3⟩) ⟨1⟩
  have three : ((here.filter p.Draws).map (fun f => p.turtle.count f.word)).sum = 3 := by
    decide +kernel
  exact ⟨rfl, segments.trans three, indices, (agree q there (.blank ⟨9, 9⟩) ⟨1⟩ rfl rfl rfl).1⟩

end Painter
end LSystem
