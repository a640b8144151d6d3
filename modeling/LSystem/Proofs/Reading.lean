import LSystem.Species
import Mathlib.Data.UInt

namespace LSystem

/-- All characters have symbols. -/
def Plain (text : String) : Prop := ∀ c ∈ text.toList, ¬ Foreign c

instance (text : String) : Decidable (Plain text) :=
  List.decidableBAll (fun c => ¬ Foreign c) text.toList

namespace Symbol

variable {c : Char}

theorem toNat_ofChar (plain : ¬ Foreign c) : (ofChar c).toNat = c.toNat := by
  have small : c.toNat < 128 := Nat.not_le.mp plain
  exact Nat.mod_eq_of_lt (Nat.lt_trans small (by decide))

/-- A character that has a symbol can be told from it. -/
theorem eq_ofChar_iff (plain : ¬ Foreign c) (s : Symbol) : s = ofChar c ↔ s.toChar = c := by
  rw [← UInt8.toNat_inj, toNat_ofChar plain, ← Char.toNat_inj]
  rfl

end Symbol

namespace Word

variable {place : Place} {text other : String} {word : Word}

theorem read_eq_ok_iff : read place text = .ok word ↔ Plain text ∧ word = ofText text := by
  unfold read
  split
  · rename_i c found
    have foreign : Foreign c := by simpa using List.find?_some found
    constructor
    · intro read
      cases read
    · rintro ⟨plain, -⟩
      exact absurd foreign (plain c (List.mem_of_find?_eq_some found))
  · rename_i none
    have plain : Plain text := by simpa [Plain] using none
    simp [plain, eq_comm]

theorem not_plain_of_read {e : ForeignSymbol} (failed : read place text = .error e) :
    ¬ Plain text := by
  intro plain
  rw [read_eq_ok_iff.mpr ⟨plain, rfl⟩] at failed
  cases failed

theorem map_toChar_ofText (plain : Plain text) : (ofText text).map UInt8.toChar = text.toList := by
  rw [ofText, List.map_map]
  refine (List.map_congr_left ?_).trans (List.map_id _)
  intro c hc
  exact (Symbol.eq_ofChar_iff (plain c hc) _).mp rfl

/-- No two texts that can be read give one word. -/
theorem ofText_inj (plain : Plain text) (plain' : Plain other) :
    ofText text = ofText other ↔ text = other := by
  refine ⟨?_, congrArg ofText⟩
  intro same
  rw [← String.toList_inj, ← map_toChar_ofText plain, ← map_toChar_ofText plain', same]

end Word

namespace Rules

variable {known table : Rules} {rules others : List (Char × String)} {head : Char} {text : String}

/-- The body that the last rule for a head gives. -/
def lastBody (rules : List (Char × String)) (head : Char) : Option String :=
  rules.reverse.lookup head

theorem lastBody_cons (first : Char) (text : String) (rest : List (Char × String)) (head : Char) :
    lastBody ((first, text) :: rest) head =
      (lastBody rest head).or (if head = first then some text else none) := by
  rw [lastBody, List.reverse_cons, List.lookup_append, ← lastBody, List.lookup_cons]
  by_cases same : head = first
  · simp [same]
  · simp [same, beq_false_of_ne]

theorem mem_of_lastBody (found : lastBody rules head = some text) : (head, text) ∈ rules := by
  exact List.mem_reverse.mp (Entries.mem_of_lookup found)

/-- Where no head has two rules, every rule is the last of its head. -/
theorem lastBody_eq_some_iff (distinct : (rules.map Prod.fst).Nodup) :
    lastBody rules head = some text ↔ (head, text) ∈ rules := by
  have reversed : (rules.reverse.map Prod.fst).Nodup := by
    rw [List.map_reverse]
    exact List.nodup_reverse.mpr distinct
  rw [lastBody, Entries.lookup_eq_some_iff_of_nodup reversed, List.mem_reverse]

theorem lastBody_perm (perm : rules.Perm others) (distinct : (rules.map Prod.fst).Nodup) :
    lastBody rules head = lastBody others head := by
  have distinct' : (others.map Prod.fst).Nodup := (perm.map Prod.fst).nodup_iff.mp distinct
  refine Option.ext (fun text => ?_)
  rw [lastBody_eq_some_iff distinct, lastBody_eq_some_iff distinct', perm.mem_iff]

def AllPlain (rules : List (Char × String)) : Prop :=
  ∀ rule ∈ rules, ¬ Foreign rule.1 ∧ Plain rule.2

instance (rules : List (Char × String)) : Decidable (AllPlain rules) :=
  List.decidableBAll (fun rule : Char × String => ¬ Foreign rule.1 ∧ Plain rule.2) rules

/-- The table after more rules. -/
def extend (known : Rules) (rules : List (Char × String)) : Rules :=
  rules.foldl (fun t (head, body) => t.insert (Symbol.ofChar head) (Word.ofText body)) known

theorem read_cons (known : Rules) (head : Char) (text : String) (rest : List (Char × String)) :
    read known ((head, text) :: rest) =
      if Foreign head then .error ⟨.head, head⟩
      else match Word.read .body text with
        | .error e => .error e
        | .ok body => read (known.insert (Symbol.ofChar head) body) rest := rfl

theorem read_eq_ok_iff :
    read known rules = .ok table ↔ AllPlain rules ∧ table = known.extend rules := by
  induction rules generalizing known with
  | nil => simp [read, AllPlain, extend, eq_comm]
  | cons rule rest ih =>
    obtain ⟨head, text⟩ := rule
    simp only [AllPlain, List.forall_mem_cons] at ih ⊢
    rw [read_cons]
    split
    · rename_i foreign
      simp [foreign]
    · rename_i plain
      cases body : Word.read .body text with
      | error e => simp [Word.not_plain_of_read body]
      | ok word =>
        obtain ⟨good, rfl⟩ := Word.read_eq_ok_iff.mp body
        rw [ih]
        simp [plain, good, extend]

theorem not_allPlain_of_read {e : ForeignSymbol} (failed : read known rules = .error e) :
    ¬ AllPlain rules := by
  intro plain
  rw [read_eq_ok_iff.mpr ⟨plain, rfl⟩] at failed
  cases failed

/-- What a table finds after more rules: the last body of the symbol's character, if it has any. -/
theorem find?_extend (plain : AllPlain rules) (s : Symbol) :
    (known.extend rules).find? s =
      ((lastBody rules s.toChar).map Word.ofText).or (known.find? s) := by
  induction rules generalizing known with
  | nil => rfl
  | cons rule rest ih =>
    obtain ⟨head, text⟩ := rule
    obtain ⟨⟨headPlain, -⟩, restPlain⟩ := List.forall_mem_cons.mp plain
    let own := if s.toChar = head then some text else none
    have first : (known.insert (Symbol.ofChar head) (Word.ofText text)).find? s =
        (own.map Word.ofText).or (known.find? s) := by
      simp only [find?_insert, Symbol.eq_ofChar_iff headPlain, own]
      split <;> rfl
    calc (known.extend ((head, text) :: rest)).find? s
        = ((known.insert (Symbol.ofChar head) (Word.ofText text)).extend rest).find? s := rfl
      _ = ((lastBody rest s.toChar).map Word.ofText).or
            ((own.map Word.ofText).or (known.find? s)) := by rw [ih restPlain, first]
      _ = ((lastBody ((head, text) :: rest) s.toChar).map Word.ofText).or (known.find? s) := by
          rw [lastBody_cons, Option.map_or, Option.or_assoc]

end Rules

namespace System

variable {start start' : String} {rules rules' : List (Char × String)} {system system' : System}

/-- A system is how it starts and what its table finds. -/
theorem eq_iff_find? : system = system' ↔
    system.start = system'.start ∧ ∀ s, system.rules.find? s = system'.rules.find? s := by
  refine ⟨fun same => same ▸ ⟨rfl, fun _ => rfl⟩, ?_⟩
  rintro ⟨starts, finds⟩
  obtain ⟨word, table⟩ := system
  obtain ⟨word', table'⟩ := system'
  rw [mk.injEq]
  exact ⟨starts, Rules.ext_find? finds⟩

theorem read_eq_ok_iff : read start rules = .ok system ↔ Plain start ∧ Rules.AllPlain rules ∧
    system = ⟨Word.ofText start, Rules.empty.extend rules⟩ := by
  unfold read
  cases word : Word.read .start start with
  | error e => simp [Word.not_plain_of_read word]
  | ok word =>
    obtain ⟨good, rfl⟩ := Word.read_eq_ok_iff.mp word
    cases table : Rules.read .empty rules with
    | error e => simp [Rules.not_allPlain_of_read table]
    | ok t =>
      obtain ⟨all, rfl⟩ := Rules.read_eq_ok_iff.mp table
      simp [good, all, eq_comm]

theorem read_of_plain (plain : Plain start) (all : Rules.AllPlain rules) :
    read start rules = .ok ⟨Word.ofText start, Rules.empty.extend rules⟩ :=
  read_eq_ok_iff.mpr ⟨plain, all, rfl⟩

theorem plain_of_read (read : System.read start rules = .ok system) :
    Plain start ∧ Rules.AllPlain rules ∧
      system = ⟨Word.ofText start, Rules.empty.extend rules⟩ :=
  read_eq_ok_iff.mp read

theorem find?_read (read : System.read start rules = .ok system) (s : Symbol) :
    system.rules.find? s = (Rules.lastBody rules s.toChar).map Word.ofText := by
  obtain ⟨-, plain, rfl⟩ := plain_of_read read
  rw [Rules.find?_extend plain, Rules.find?_empty, Option.or_none]

/-- The rules that count can be told from the table. -/
theorem lastBody_eq_some_iff_find? (read : System.read start rules = .ok system) {head : Char}
    {text : String} : Rules.lastBody rules head = some text ↔
      ¬ Foreign head ∧ Plain text ∧
        system.rules.find? (Symbol.ofChar head) = some (Word.ofText text) := by
  obtain ⟨-, all, -⟩ := plain_of_read read
  rw [find?_read read]
  constructor
  · intro found
    obtain ⟨headPlain, textPlain⟩ := all _ (Rules.mem_of_lastBody found)
    refine ⟨headPlain, textPlain, ?_⟩
    rw [(Symbol.eq_ofChar_iff headPlain _).mp rfl, found, Option.map_some]
  · rintro ⟨headPlain, textPlain, found⟩
    rw [(Symbol.eq_ofChar_iff headPlain _).mp rfl] at found
    obtain ⟨last, found, same⟩ := Option.map_eq_some_iff.mp found
    obtain ⟨-, lastPlain⟩ := all _ (Rules.mem_of_lastBody found)
    rw [found]
    exact congrArg some ((Word.ofText_inj lastPlain textPlain).mp same)

/-- Two readings give one system if and only if they start alike and every head has one last body
in both. -/
theorem read_inj (read : System.read start rules = .ok system)
    (read' : System.read start' rules' = .ok system') :
    system = system' ↔
      start = start' ∧ ∀ head, Rules.lastBody rules head = Rules.lastBody rules' head := by
  obtain ⟨plain, -, given⟩ := plain_of_read read
  obtain ⟨plain', -, given'⟩ := plain_of_read read'
  constructor
  · intro same
    constructor
    · rw [← Word.ofText_inj plain plain']
      rw [given, given'] at same
      exact congrArg System.start same
    · intro head
      refine Option.ext (fun text => ?_)
      rw [lastBody_eq_some_iff_find? read, lastBody_eq_some_iff_find? read', same]
  · rintro ⟨rfl, same⟩
    refine eq_iff_find?.mpr ⟨by rw [given, given'], ?_⟩
    intro s
    rw [find?_read read, find?_read read', same]

/-- Rules with different heads can be read in any order. -/
theorem read_perm (perm : rules.Perm rules') (distinct : (rules.map Prod.fst).Nodup)
    (read : System.read start rules = .ok system) : System.read start rules' = .ok system := by
  obtain ⟨plain, all, given⟩ := plain_of_read read
  have all' : Rules.AllPlain rules' := fun rule here => all rule (perm.mem_iff.mpr here)
  have read' := read_of_plain plain all'
  rw [read', (read_inj read read').mpr ⟨rfl, fun head => Rules.lastBody_perm perm distinct⟩]

end System

namespace Species

variable {name start : String} {rules : List (Char × String)} {turn : Float32} {s : Species}

/-- A name and a turn come to what is read, and are not read themselves. -/
theorem read_eq_map (name start : String) (rules : List (Char × String)) (turn : Float32) :
    read name start rules turn =
      (System.read start rules).map (fun system => ⟨name, system, turn⟩) := by
  rw [read]
  cases System.read start rules <;> rfl

theorem parts_of_read (read : Species.read name start rules turn = .ok s) :
    s.name = name ∧ s.turn = turn ∧ System.read start rules = .ok s.system := by
  rw [read_eq_map] at read
  cases known : System.read start rules with
  | error e =>
    rw [known] at read
    cases read
  | ok system =>
    rw [known] at read
    cases read
    exact ⟨rfl, rfl, rfl⟩

theorem system_of_read (read : Species.read name start rules turn = .ok s) :
    System.read start rules = .ok s.system := (parts_of_read read).2.2

end Species
end LSystem
