import LSystem.Proofs.Reading

namespace LSystem

/-- The characters of a text, each with the place where the text stands. -/
def Place.characters (place : Place) (text : String) : List (Place × Char) :=
  text.toList.map (place, ·)

/-- A refusal is the character that it names and its place. -/
theorem ForeignSymbol.error_eq_iff {α : Type} {e e' : ForeignSymbol} :
    (.error e : Except ForeignSymbol α) = .error e' ↔
      some (e.place, e.found) = some (e'.place, e'.found) := by
  cases e
  cases e'
  simp

namespace Word

variable {place : Place} {text : String}

/-- A text is refused for its first foreign character. -/
theorem read_eq_error_iff {e : ForeignSymbol} : read place text = .error e ↔
    (place.characters text).find? (Foreign ·.2) = some (e.place, e.found) := by
  have first : (place.characters text).find? (Foreign ·.2) =
      (text.toList.find? (Foreign ·)).map (place, ·) := List.find?_map
  rw [first, read]
  cases text.toList.find? (Foreign ·) with
  | none => simp
  | some found => exact ForeignSymbol.error_eq_iff

theorem find?_of_plain (plain : Plain text) :
    (place.characters text).find? (Foreign ·.2) = none := by
  rw [List.find?_eq_none]
  intro a ha
  obtain ⟨c, hc, rfl⟩ := List.mem_map.mp ha
  simpa using plain c hc

end Word

namespace Rules

variable {rules others : List (Char × String)}

/-- The characters of rules in the order in which they are read. -/
def characters (rules : List (Char × String)) : List (Place × Char) :=
  rules.flatMap (fun (head, text) => (.head, head) :: Place.body.characters text)

theorem read_eq_error_iff {known : Rules} {e : ForeignSymbol} : read known rules = .error e ↔
    (characters rules).find? (Foreign ·.2) = some (e.place, e.found) := by
  induction rules generalizing known with
  | nil => simp [read, characters]
  | cons rule rest ih =>
    obtain ⟨head, text⟩ := rule
    have parts : characters ((head, text) :: rest) =
      (.head, head) :: (Place.body.characters text ++ characters rest) := List.flatMap_cons
    rw [parts, read_cons]
    split
    · rename_i foreign
      rw [List.find?_cons_of_pos (by simpa using foreign)]
      exact ForeignSymbol.error_eq_iff
    · rename_i plain
      rw [List.find?_cons_of_neg (by simpa using plain), List.find?_append]
      cases body : Word.read .body text with
      | error first =>
        rw [Word.read_eq_error_iff.mp body, Option.some_or]
        exact ForeignSymbol.error_eq_iff
      | ok word =>
        rw [Word.find?_of_plain (Word.read_eq_ok_iff.mp body).1, Option.none_or]
        exact ih

/-- Only the rules of a head bear on its last body. -/
theorem lastBody_eq_getLast? (rules : List (Char × String)) (head : Char) :
    lastBody rules head = (rules.filter (·.1 = head)).getLast?.map Prod.snd := by
  induction rules with
  | nil => rfl
  | cons rule rest ih =>
    obtain ⟨first, text⟩ := rule
    rw [lastBody_cons, ih]
    by_cases same : head = first
    · subst same
      rw [if_pos rfl, List.filter_cons_of_pos (by simp), List.getLast?_cons]
      cases (rest.filter (·.1 = head)).getLast? <;> rfl
    · rw [if_neg same, Option.or_none, List.filter_cons_of_neg (by simpa using Ne.symm same)]

/-- The rules of each head are the same and in the same order, wherever they stand among those of
other heads. -/
def SameByHead (rules others : List (Char × String)) : Prop :=
  ∀ head, rules.filter (·.1 = head) = others.filter (·.1 = head)

/-- Neighbours with different heads may change places. -/
theorem SameByHead.swap {a b : Char × String} (different : a.1 ≠ b.1)
    (before after : List (Char × String)) :
    SameByHead (before ++ a :: b :: after) (before ++ b :: a :: after) := by
  intro head
  rw [List.filter_append, List.filter_append]
  congr 1
  by_cases first : a.1 = head
  · have second : b.1 ≠ head := fun same => different (first.trans same.symm)
    simp [first, second]
  · simp [List.filter_cons, first]

theorem SameByHead.mem {rule : Char × String} (same : SameByHead rules others)
    (here : rule ∈ others) : rule ∈ rules := by
  have own : rule ∈ others.filter (·.1 = rule.1) := List.mem_filter.mpr ⟨here, by simp⟩
  rw [← same] at own
  exact List.mem_of_mem_filter own

theorem SameByHead.lastBody (same : SameByHead rules others) (head : Char) :
    lastBody rules head = lastBody others head := by
  rw [lastBody_eq_getLast?, lastBody_eq_getLast?, same]

end Rules

namespace System

variable {start : String} {rules others : List (Char × String)} {system : System}

/-- All characters in the order in which they are read. -/
def characters (start : String) (rules : List (Char × String)) : List (Place × Char) :=
  Place.start.characters start ++ Rules.characters rules

theorem read_eq_error_iff {e : ForeignSymbol} : read start rules = .error e ↔
    (characters start rules).find? (Foreign ·.2) = some (e.place, e.found) := by
  rw [characters, List.find?_append, read]
  cases word : Word.read .start start with
  | error first =>
    rw [Word.read_eq_error_iff.mp word, Option.some_or]
    exact ForeignSymbol.error_eq_iff
  | ok first =>
    rw [Word.find?_of_plain (Word.read_eq_ok_iff.mp word).1, Option.none_or]
    refine Iff.trans ?_ (@Rules.read_eq_error_iff rules .empty e)
    cases Rules.read .empty rules <;> simp

theorem exists_read_eq_error_iff : (∃ e, read start rules = .error e) ↔
    (∃ c ∈ start.toList, Foreign c) ∨
      ∃ rule ∈ rules, Foreign rule.1 ∨ ∃ c ∈ rule.2.toList, Foreign c := by
  have refused : (∃ e, read start rules = .error e) ↔ ¬ (Plain start ∧ Rules.AllPlain rules) := by
    constructor
    · rintro ⟨e, failed⟩ ⟨plain, all⟩
      rw [read_of_plain plain all] at failed
      cases failed
    · intro foreign
      cases read : System.read start rules with
      | error e => exact ⟨e, rfl⟩
      | ok system =>
        obtain ⟨plain, all, -⟩ := plain_of_read read
        exact absurd ⟨plain, all⟩ foreign
  rw [refused]
  simp only [Plain, Rules.AllPlain]
  grind

/-- Where a rule stands among those of other heads does not count. -/
theorem read_of_sameByHead (same : Rules.SameByHead rules others)
    (read : System.read start rules = .ok system) : System.read start others = .ok system := by
  obtain ⟨plain, all, -⟩ := plain_of_read read
  have all' : Rules.AllPlain others := fun rule here => all rule (same.mem here)
  have read' := read_of_plain plain all'
  rw [read', (read_inj read read').mpr ⟨rfl, same.lastBody⟩]

/-- What a system that was read finds and how wide it is, told by characters. -/
theorem find?_eq_lastBody (read : System.read start rules = .ok system) (s : Symbol) :
    (system.rules.find? s).map (·.map UInt8.toChar) =
        (Rules.lastBody rules s.toChar).map String.toList ∧
      system.rules.width s = (Rules.lastBody rules s.toChar).elim 1 (·.toList.length) := by
  obtain ⟨-, all, -⟩ := plain_of_read read
  rw [Rules.width, find?_read read]
  cases found : Rules.lastBody rules s.toChar with
  | none => exact ⟨rfl, rfl⟩
  | some text =>
    obtain ⟨-, plain⟩ := all _ (Rules.mem_of_lastBody found)
    exact ⟨congrArg some (Word.map_toChar_ofText plain), Word.length_ofText text⟩

end System

namespace Species

variable {name start : String} {rules : List (Char × String)} {turn : Float32}

theorem read_eq_error_iff {e : ForeignSymbol} : read name start rules turn = .error e ↔
    (System.characters start rules).find? (Foreign ·.2) = some (e.place, e.found) := by
  rw [← System.read_eq_error_iff, read_eq_map]
  cases System.read start rules <;> simp [Except.map]

/-- What is not checked is no other species than if it had been. -/
theorem read_eq_ofText (name : String) {start : String} {rules : List (Char × String)}
    (turn : Float32) (plain : Plain start) (all : Rules.AllPlain rules) :
    read name start rules turn = .ok (ofText name start rules turn) := by
  rw [read_eq_map, System.read_of_plain plain all]
  rfl

/-- A species is refused if and only if some character is foreign, and then for the first one of the
start, the first head, the first body and so on. Otherwise each character becomes a symbol and the
last body of a head is the one that counts: readings with one start are one system exactly when
their last bodies agree, and a rule may stand anywhere among those of other heads. -/
theorem read_refuses_or_keeps_last (name start : String) (rules : List (Char × String))
    (turn : Float32) :
    ((∃ e, read name start rules turn = .error e) ↔
      (∃ c ∈ start.toList, Foreign c) ∨
        ∃ rule ∈ rules, Foreign rule.1 ∨ ∃ c ∈ rule.2.toList, Foreign c) ∧
    (∀ e, read name start rules turn = .error e ↔
      (System.characters start rules).find? (Foreign ·.2) = some (e.place, e.found)) ∧
    ∀ species, read name start rules turn = .ok species →
      species.name = name ∧ species.turn = turn ∧
      species.system.start.map UInt8.toChar = start.toList ∧
      (∀ s, (species.system.rules.find? s).map (·.map UInt8.toChar) =
          (Rules.lastBody rules s.toChar).map String.toList ∧
        species.system.rules.width s =
          (Rules.lastBody rules s.toChar).elim 1 (·.toList.length)) ∧
      (∀ name' others turn' species', read name' start others turn' = .ok species' →
        (species.system = species'.system ↔
          ∀ head, Rules.lastBody rules head = Rules.lastBody others head)) ∧
      ∀ others, Rules.SameByHead rules others → read name start others turn = .ok species := by
  refine ⟨?_, fun e => read_eq_error_iff, ?_⟩
  · simp only [read_eq_error_iff, ← System.read_eq_error_iff]
    exact System.exists_read_eq_error_iff
  · intro species given
    obtain ⟨rfl, rfl, known⟩ := parts_of_read given
    refine ⟨rfl, rfl, ?_, System.find?_eq_lastBody known, ?_, ?_⟩
    · obtain ⟨plain, -, system⟩ := System.plain_of_read known
      rw [system, Word.map_toChar_ofText plain]
    · intro name' others turn' species' given'
      rw [System.read_inj known (system_of_read given'), eq_self, true_and]
    · intro others same
      rw [read_eq_map, System.read_of_sameByHead same known]
      rfl

/-- The second body for `F` counts, and the rule for `X` may stand before both. A foreign character
in a body is named though the next head is foreign too. -/
theorem read_refuses_or_keeps_last_doubled :
    (∃ species, read "twig" "X" [('F', "FF"), ('X', "F"), ('F', "F[X]")] quarterTurn = .ok species ∧
      (species.system.rules.find? 70).map (·.map UInt8.toChar) = some ['F', '[', 'X', ']'] ∧
      species.system.rules.width 71 = 1 ∧
      read "twig" "X" [('X', "F"), ('F', "FF"), ('F', "F[X]")] quarterTurn = .ok species) ∧
    read "twig" "X" [('F', "FF"), ('X', "Fé"), ('é', "")] quarterTurn = .error ⟨.body, 'é'⟩ := by
  obtain ⟨-, -, reads⟩ :=
    read_refuses_or_keeps_last "twig" "X" [('F', "FF"), ('X', "F"), ('F', "F[X]")] quarterTurn
  obtain ⟨-, first, -⟩ :=
    read_refuses_or_keeps_last "twig" "X" [('F', "FF"), ('X', "Fé"), ('é', "")] quarterTurn
  have given : read "twig" "X" [('F', "FF"), ('X', "F"), ('F', "F[X]")] quarterTurn = .ok _ :=
    read_eq_ofText _ _ (by decide) (by decide)
  obtain ⟨-, -, -, finds, -, reordered⟩ := reads _ given
  refine ⟨⟨_, given, ?_, ?_, ?_⟩, ?_⟩
  · exact (finds 70).1.trans (by decide)
  · exact (finds 71).2.trans (by decide)
  · exact reordered _ (Rules.SameByHead.swap (by decide) [] [('F', "F[X]")])
  · exact (first ⟨.body, 'é'⟩).mpr (by decide)

end Species

end LSystem
