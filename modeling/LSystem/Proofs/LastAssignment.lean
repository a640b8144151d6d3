import LSystem.Turtle.Revision
import Mathlib.Data.List.DropRight

namespace LSystem

namespace Alphabet

/-- Assignments one after another. -/
def assignAll (a : Alphabet) (assignments : List (Symbol × Command)) : Alphabet :=
  assignments.foldl (fun a made => a.assign made.1 made.2) a

/-- Of several assignments to a symbol the last one counts. -/
theorem command_assignAll (a : Alphabet) (assignments : List (Symbol × Command)) (s : Symbol) :
    (a.assignAll assignments).command s =
      (assignments.reverse.lookup s).getD (a.command s) := by
  induction assignments generalizing a with
  | nil => rfl
  | cons first rest ih =>
    obtain ⟨t, c⟩ := first
    calc (a.assignAll ((t, c) :: rest)).command s
        = ((a.assign t c).assignAll rest).command s := rfl
      _ = (rest.reverse.lookup s).getD (if s = t then c else a.command s) := by
          rw [ih, command_assign]
      _ = (((t, c) :: rest).reverse.lookup s).getD (a.command s) := by
          rw [List.reverse_cons, List.lookup_append, List.lookup_cons]
          cases rest.reverse.lookup s with
          | some last => rfl
          | none => by_cases same : s = t <;> simp [same, beq_false_of_ne]

/-- The symbols that a growing alphabet passes over get an entry, and it is to be ignored. -/
theorem getElem?_assign_skipped {a : Alphabet} {s skipped : Symbol}
    (known : a.commands.size ≤ skipped.toNat) (before : skipped < s) (c : Command) :
    (a.assign s c).commands[skipped.toNat]? = some .ignore := by
  have less : skipped.toNat < s.toNat := UInt8.lt_iff_toNat_lt.mp before
  have room : skipped.toNat - a.commands.size < s.toNat + 1 - a.commands.size := by omega
  rw [assign, Array.getElem?_setIfInBounds_ne (by omega), Array.getElem?_append_right known,
    Array.getElem?_replicate, if_pos room]

end Alphabet

namespace Turtle

namespace Revision

def replacement? : Revision → Option (Array Command)
  | .replace commands => some commands
  | .assign _ _ | .addConventional => none

/-- The assignments that a revision consists of, first to last. -/
def assignments : Revision → List (Symbol × Command)
  | .assign s c => [(s, c)]
  | .replace _ => []
  | .addConventional => Alphabet.conventional.map (fun usual => (Symbol.ofChar usual.1, usual.2))

end Revision

variable {t : Turtle} {history : List Revision} {r : Revision} {s : Symbol}

/-- The map that was put in the place of all others last, or the one that was there at first. -/
def lastMap (start : Array Command) (history : List Revision) : Array Command :=
  (history.filterMap Revision.replacement?).getLast?.getD start

/-- The revisions that came after the last map. -/
def sinceMap (history : List Revision) : List Revision :=
  history.rtakeWhile (fun r => r.replacement?.isNone)

/-- The command that was assigned to a symbol last. -/
def lastAssigned (history : List Revision) (s : Symbol) : Option Command :=
  (history.flatMap Revision.assignments).reverse.lookup s

/-- A revision puts a map in place, if it has one, and then makes its assignments. -/
theorem alphabet_revise (t : Turtle) (r : Revision) :
    (t.revise r).alphabet =
      (r.replacement?.elim t.alphabet Alphabet.mk).assignAll r.assignments := by
  cases r with
  | assign s c | replace commands => rfl
  | addConventional =>
    change t.alphabet.addConventional = t.alphabet.assignAll _
    rw [Alphabet.assignAll, Revision.assignments, List.foldl_map, Alphabet.addConventional]

theorem lastAssigned_concat (history : List Revision) (r : Revision) (s : Symbol) :
    lastAssigned (history ++ [r]) s =
      (r.assignments.reverse.lookup s).or (lastAssigned history s) := by
  rw [lastAssigned, List.flatMap_append, List.flatMap_singleton, List.reverse_append,
    List.lookup_append, lastAssigned]

section Concat

variable {start commands : Array Command}

theorem lastMap_of_replaced (map : r.replacement? = some commands) :
    lastMap start (history ++ [r]) = commands := by
  simp [lastMap, map]

theorem lastMap_of_kept (map : r.replacement? = none) :
    lastMap start (history ++ [r]) = lastMap start history := by
  simp [lastMap, map]

theorem sinceMap_of_replaced (map : r.replacement? = some commands) :
    sinceMap (history ++ [r]) = [] :=
  List.rtakeWhile_concat_neg _ _ _ (by simp [map])

theorem sinceMap_of_kept (map : r.replacement? = none) :
    sinceMap (history ++ [r]) = sinceMap history ++ [r] :=
  List.rtakeWhile_concat_pos _ _ _ (by simp [map])

end Concat

/-- A symbol has the command that was assigned to it last since the last map, or else the one that
it has in that map. -/
theorem command_reviseAll (t : Turtle) (history : List Revision) (s : Symbol) :
    (t.reviseAll history).alphabet.command s =
      ((lastAssigned (sinceMap history) s).or
        (lastMap t.alphabet.commands history)[s.toNat]?).getD .ignore := by
  -- From the end: what the last revision does not settle, those before it do.
  induction history using List.reverseRecOn with
  | nil => rfl
  | append_singleton history r ih =>
    have step : t.reviseAll (history ++ [r]) = (t.reviseAll history).revise r :=
      List.foldl_concat ..
    rw [step, alphabet_revise, Alphabet.command_assignAll]
    cases map : r.replacement? with
    | some commands =>
      rw [lastMap_of_replaced map, sinceMap_of_replaced map]
      cases r with
      | replace given =>
        cases map
        rfl
      | assign s c | addConventional => cases map
    | none =>
      rw [lastMap_of_kept map, sinceMap_of_kept map, lastAssigned_concat, Option.elim_none, ih]
      cases r.assignments.reverse.lookup s <;> rfl

/-- After any revisions, in any order, a symbol has the command that was assigned to it last since
the last map was put in place, or else the one that it has in that map, and is ignored if the map
has none. An assignment changes no other symbol, and the symbols that it makes room for are entered
as ignored. -/
theorem last_assignment_counts (t : Turtle) (history : List Revision) (s : Symbol) :
    (t.reviseAll history).alphabet.command s =
      ((lastAssigned (sinceMap history) s).or
        (lastMap t.alphabet.commands history)[s.toNat]?).getD .ignore ∧
    ∀ c, let assigned := ((t.reviseAll history).revise (.assign s c)).alphabet
      (∀ other, other ≠ s → assigned.command other = (t.reviseAll history).alphabet.command other) ∧
      ∀ skipped, (t.reviseAll history).alphabet.commands.size ≤ skipped.toNat → skipped < s →
        assigned.commands[skipped.toNat]? = some .ignore := by
  refine ⟨command_reviseAll t history s, ?_⟩
  intro c assigned
  refine ⟨?_, ?_⟩
  · intro other different
    exact (Alphabet.command_assign ..).trans (if_neg different)
  · intro skipped known before
    exact Alphabet.getElem?_assign_skipped known before c

/-- A short map forgets what `F` and `a` were assigned before. `F` gets its usual command again,
`]` loses it to a later assignment, and the room up to `a` is ignored. -/
theorem last_assignment_counts_short :
    let history : List Revision := [.assign 97 .around, .assign 70 .move, .replace #[.push, .pop],
      .addConventional, .assign 93 .draw]
    let t := (mute .usual).reviseAll history
    let assigned := (t.revise (.assign 126 .move)).alphabet
    t.alphabet.command 97 = .ignore ∧ t.alphabet.command 70 = .draw ∧
      t.alphabet.command 93 = .draw ∧ t.alphabet.command 1 = .pop ∧
      assigned.command 93 = .draw ∧ assigned.commands[125]? = some .ignore := by
  intro history t assigned
  have counts := last_assignment_counts (mute .usual) history
  have draws : t.alphabet.command 93 = .draw := (counts 93).1.trans (by decide)
  obtain ⟨-, assigns⟩ := counts 126
  obtain ⟨others, room⟩ := assigns .move
  refine ⟨(counts 97).1.trans (by decide), (counts 70).1.trans (by decide), draws,
    (counts 1).1.trans (by decide), (others 93 (by decide)).trans draws, ?_⟩
  exact room 125 (by decide +kernel) (by decide)

end Turtle
end LSystem
