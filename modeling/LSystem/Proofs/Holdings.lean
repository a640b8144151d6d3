import LSystem.Expansion.Session
import LSystem.Proofs.Freshness
import LSystem.Proofs.Reading
import Mathlib.Data.Finset.Card

namespace LSystem

namespace Species

variable {a b : Species} {d d' : Nat} {name name' start start' : String}
  {rules rules' : List (Char × String)} {turn turn' : Float32}

/-- A key tells apart all that a derivation depends on, and nothing else. -/
theorem key_eq_iff : a.key d = b.key d' ↔ a.system.start = b.system.start ∧
    (∀ s, a.system.rules.find? s = b.system.rules.find? s) ∧ d = d' := by
  rw [key, key, Key.mk.injEq, System.eq_iff_find?, and_assoc]

theorem key_eq_iff_of_read (read : Species.read name start rules turn = .ok a)
    (read' : Species.read name' start' rules' turn' = .ok b) : a.key d = b.key d' ↔
      start = start' ∧ (∀ head, Rules.lastBody rules head = Rules.lastBody rules' head) ∧
        d = d' := by
  rw [key, key, Key.mk.injEq, System.read_inj (system_of_read read) (system_of_read read'),
    and_assoc]

theorem key_of_perm (read : Species.read name start rules turn = .ok a) (perm : rules.Perm rules')
    (distinct : (rules.map Prod.fst).Nodup) :
    ∃ b, Species.read name' start rules' turn' = .ok b ∧ b.key d = a.key d := by
  refine ⟨⟨name', a.system, turn'⟩, ?_, rfl⟩
  rw [Species.read, System.read_perm perm distinct (system_of_read read)]

end Species

namespace Store

/-- The keys that a store holds an expansion for. -/
def keys (s : Store) : Finset Key := (s.entries.map Prod.fst).toFinset

theorem mem_keys {s : Store} {k : Key} : k ∈ s.keys ↔ s.contains k := by
  rw [keys, List.mem_toFinset, contains, Option.isSome_iff_ne_none, find?, ne_eq,
    Entries.lookup_eq_none, not_not]

theorem card_keys (s : Store) : s.keys.card = s.size := by
  rw [keys, List.toFinset_card_of_nodup s.distinct, List.length_map, size]

end Store

namespace Session

variable {s : Session} {keys : Finset Key} {k : Key} {e : Expansion} {tag : Nat}
  {allowed : Key → Prop}

/-- The keys whose expansions are held after a call. -/
def Call.ask (keys : Finset Key) : Call → Finset Key
  | .expand species depth => insert (species.key depth) keys
  | .contains _ _ => keys
  | .clear => ∅

/-- The keys that were asked for since the store was last cleared. -/
def asked (history : List Call) : Finset Key := history.foldl Call.ask ∅

theorem expand_of_held {species : Species} {depth : Nat}
    (held : s.store.find? (species.key depth) = some e) : s.expand species depth = (e, s) := by
  rcases s.store.expand_cases (species.key depth) s.supply with
    ⟨_, found, given⟩ | ⟨missing, -⟩
  · rw [held] at found
    cases found
    rw [expand, given]
  · rw [held] at missing
    cases missing

theorem expand_of_missing {species : Species} {depth : Nat}
    (missing : s.store.find? (species.key depth) = none) :
    (s.expand species depth).1 = ⟨s.supply.next, (species.key depth).word⟩ ∧
      (s.expand species depth).2.supply.next = s.supply.next + 1 := by
  rcases s.store.expand_cases (species.key depth) s.supply with
    ⟨_, found, -⟩ | ⟨-, store, given, -⟩
  · rw [missing] at found
    cases found
  · simp only [expand, given, and_self]

/-- The expansion of a key that was asked for is held from then on. -/
theorem find?_expand (s : Session) (species : Species) (depth : Nat) (k : Key) :
    (s.expand species depth).2.store.find? k =
      if k = species.key depth then some (s.expand species depth).1 else s.store.find? k := by
  rcases s.store.expand_cases (species.key depth) s.supply with
    ⟨held, found, given⟩ | ⟨-, store, given, holds⟩
  · simp only [expand, given]
    split
    · rename_i same
      rw [same, found]
    · rfl
  · simp only [expand, given, holds]

theorem held_expand {species : Species} {depth : Nat}
    (held : (s.expand species depth).2.store.find? k = some e) :
    (k = species.key depth ∧ e = (s.expand species depth).1) ∨ s.store.find? k = some e := by
  rw [find?_expand] at held
  split at held
  · rename_i same
    cases held
    exact Or.inl ⟨same, rfl⟩
  · exact Or.inr held

theorem find?_perform {call : Call} (held : s.store.find? k = some e) (calm : call ≠ .clear) :
    (s.perform call).store.find? k = some e := by
  cases call with
  | expand species depth =>
    rw [perform, find?_expand]
    split
    · rename_i same
      rw [same] at held
      rw [expand_of_held held]
    · exact held
  | contains species depth => exact held
  | clear => exact absurd rfl calm

/-- What is held stays the same until the store is cleared. -/
theorem find?_run {history : List Call} (held : s.store.find? k = some e)
    (calm : .clear ∉ history) : (s.run history).store.find? k = some e := by
  induction history generalizing s with
  | nil => exact held
  | cons call later ih =>
    rw [List.mem_cons, not_or] at calm
    exact ih (find?_perform held (Ne.symm calm.1)) calm.2

/-- The tag was given, and an expansion that bears it is held for an allowed key or for none. -/
structure Confined (s : Session) (tag : Nat) (allowed : Key → Prop) : Prop where
  given : tag < s.supply.next
  only : ∀ k e, s.store.find? k = some e → e.tag = tag → allowed k

theorem Confined.perform (h : s.Confined tag allowed) (call : Call) :
    (s.perform call).Confined tag allowed := by
  cases call with
  | expand species depth =>
    rw [Session.perform]
    cases found : s.store.find? (species.key depth) with
    | some held =>
      rw [expand_of_held found]
      exact h
    | none =>
      obtain ⟨fresh, next⟩ := expand_of_missing found
      refine ⟨next ▸ Nat.lt_succ_of_lt h.given, ?_⟩
      intro k e held same
      rcases held_expand held with ⟨-, rfl⟩ | old
      · rw [fresh] at same
        exact absurd same (Nat.ne_of_gt h.given)
      · exact h.only k e old same
  | contains species depth => exact h
  | clear =>
    refine ⟨h.given, ?_⟩
    intro k e held
    cases held

theorem Confined.run (h : s.Confined tag allowed) (history : List Call) :
    (s.run history).Confined tag allowed := by
  induction history generalizing s with
  | nil => exact h
  | cons call later ih => exact ih (h.perform call)

/-- A store that was cleared holds none of the tags from before. -/
theorem Confined.clear (h : s.Confined tag allowed) : s.clear.Confined tag (fun _ => False) := by
  refine ⟨h.given, ?_⟩
  intro k e held
  cases held

theorem Confined.expand (h : s.Confined tag allowed) {species : Species} {depth : Nat}
    (same : (s.expand species depth).1.tag = tag) : allowed (species.key depth) := by
  cases found : s.store.find? (species.key depth) with
  | some held =>
    rw [expand_of_held found] at same
    exact h.only _ held found same
  | none =>
    rw [(expand_of_missing found).1] at same
    exact absurd same (Nat.ne_of_gt h.given)

/-- The store holds what these keys stand for and nothing else, each under a tag of its own. -/
structure Holds (s : Session) (keys : Finset Key) : Prop where
  found : ∀ k, (s.store.find? k).isSome ↔ k ∈ keys
  word : ∀ k e, s.store.find? k = some e → e.word = k.word
  confined : ∀ k e, s.store.find? k = some e → s.Confined e.tag (· = k)

theorem holds_empty {store : Store} (nothing : store.entries = []) (supply : Supply) :
    Holds ⟨store, supply⟩ ∅ := by
  have missing (k : Key) : store.find? k = none := by
    rw [Store.find?, nothing, List.lookup_nil]
  refine ⟨?_, ?_, ?_⟩
  · intro k
    simp [missing k]
  · intro k e held
    rw [missing k] at held
    cases held
  · intro k e held
    rw [missing k] at held
    cases held

namespace Holds

variable (h : s.Holds keys) (species : Species) (depth : Nat)
include h

theorem word_expand : (s.expand species depth).1.word = (species.key depth).word := by
  cases found : s.store.find? (species.key depth) with
  | some held =>
    rw [expand_of_held found]
    exact h.word _ held found
  | none => rw [(expand_of_missing found).1]

theorem confined_expand : (s.expand species depth).2.Confined (s.expand species depth).1.tag
    (· = species.key depth) := by
  cases found : s.store.find? (species.key depth) with
  | some held =>
    rw [expand_of_held found]
    exact h.confined _ held found
  | none =>
    obtain ⟨fresh, next⟩ := expand_of_missing found
    rw [fresh]
    refine ⟨next ▸ Nat.lt_succ_self _, ?_⟩
    intro k e held same
    rcases held_expand held with ⟨here, -⟩ | old
    · exact here
    · exact absurd same (Nat.ne_of_lt (h.confined k e old).given)

theorem perform (call : Call) : (s.perform call).Holds (call.ask keys) := by
  cases call with
  | expand species depth =>
    refine ⟨?_, ?_, ?_⟩
    · intro k
      rw [Session.perform, find?_expand, Call.ask, Finset.mem_insert, ← h.found k]
      split <;> simp [*]
    · intro k e held
      rcases held_expand held with ⟨rfl, rfl⟩ | old
      · exact h.word_expand species depth
      · exact h.word k e old
    · intro k e held
      rcases held_expand held with ⟨rfl, rfl⟩ | old
      · exact h.confined_expand species depth
      · exact (h.confined k e old).perform (.expand species depth)
  | contains species depth => exact h
  | clear => exact holds_empty rfl s.supply

theorem run (history : List Call) : (s.run history).Holds (history.foldl Call.ask keys) := by
  induction history generalizing s keys with
  | nil => exact h
  | cons call later ih => exact ih (h.perform call)

theorem size_eq_card : s.store.size = keys.card := by
  have same : s.store.keys = keys := by
    ext k
    exact Store.mem_keys.trans (h.found k)
  rw [← same, Store.card_keys]

theorem isEmpty_iff : s.store.isEmpty ↔ keys = ∅ := by
  rw [← Finset.card_eq_zero, ← h.size_eq_card, Store.isEmpty, Store.size,
    List.isEmpty_iff_length_eq_zero]

/-- A later answer is the same expansion if and only if it is for the same key and the store was
not cleared on the way. -/
theorem tag_expand_eq_iff (later : List Call) (other : Species) (depth' : Nat) :
    (((s.expand species depth).2.run later).expand other depth').1.tag =
        (s.expand species depth).1.tag ↔
      other.key depth' = species.key depth ∧ .clear ∉ later := by
  have confined := h.confined_expand species depth
  constructor
  · intro same
    refine ⟨(confined.run later).expand same, ?_⟩
    -- The first tag is retired where the store is cleared, and no tag is given twice.
    intro cleared
    obtain ⟨before, after, rfl⟩ := List.append_of_mem cleared
    rw [Session.run, List.foldl_append] at same
    exact ((confined.run before).clear.run after).expand same
  · rintro ⟨same, calm⟩
    have held : (s.expand species depth).2.store.find? (other.key depth') =
        some (s.expand species depth).1 := by rw [find?_expand, if_pos same]
    rw [expand_of_held (find?_run held calm)]

end Holds

/-- A store holds what was asked for since it was last cleared, and gives one expansion for a key
until it is cleared again. The key is the system and the depth: a species with another name or
turn, or with its rules in another order, has the same one. -/
theorem holds_what_was_asked (rewriter : Rewriter) (supply : Supply) (history : List Call) :
    let s := (opened rewriter supply).run history
    let keys := asked history
    s.store.size = keys.card ∧ (s.store.isEmpty ↔ keys = ∅) ∧
    (∀ species depth, s.contains species depth ↔ species.key depth ∈ keys) ∧
    (∀ species depth (r : Rewriter),
      (s.expand species depth).1.word = r.expand species.system depth) ∧
    (∀ species depth later other depth',
      (((s.expand species depth).2.run later).expand other depth').1.tag =
          (s.expand species depth).1.tag ↔
        other.key depth' = species.key depth ∧ .clear ∉ later) ∧
    (∀ (a b : Species) d d', a.key d = b.key d' ↔ a.system.start = b.system.start ∧
      (∀ symbol, a.system.rules.find? symbol = b.system.rules.find? symbol) ∧ d = d') ∧
    ∀ name start rules turn a d name' rules' turn',
      Species.read name start rules turn = .ok a →
      (rules.Perm rules' → (rules.map Prod.fst).Nodup →
        ∃ b, Species.read name' start rules' turn' = .ok b ∧ b.key d = a.key d) ∧
      ∀ start' b d', Species.read name' start' rules' turn' = .ok b →
        (a.key d = b.key d' ↔ start = start' ∧
          (∀ head, Rules.lastBody rules head = Rules.lastBody rules' head) ∧ d = d') := by
  intro s keys
  have holds : s.Holds keys := (holds_empty rfl supply).run history
  refine ⟨holds.size_eq_card, holds.isEmpty_iff, ?_, ?_, ?_, ?_, ?_⟩
  · intro species depth
    exact holds.found (species.key depth)
  · intro species depth r
    rw [holds.word_expand]
    exact (r.expand_eq_word (species.key depth)).symm
  · intro species depth later other depth'
    exact holds.tag_expand_eq_iff species depth later other depth'
  · intro a b d d'
    exact Species.key_eq_iff
  · intro name start rules turn a d name' rules' turn' read
    refine ⟨Species.key_of_perm read, ?_⟩
    intro start' b d' read'
    exact Species.key_eq_iff_of_read read read'

/-- A dragon whose rules come in another order, under another name and with another turn, shares
what was held for a dragon, and nothing that was cleared is held. -/
theorem holds_what_was_asked_reordered :
    let rules := [('X', "X+YF+"), ('Y', "-FX-Y")]
    let rules' := [('Y', "-FX-Y"), ('X', "X+YF+")]
    let history : List Call := [.expand .koch 2, .clear, .expand .dragon 3, .contains .koch 2,
      .expand .fern 1]
    let s := (opened .alone ⟨0⟩).run history
    Species.read "dragon_curve" "FX" rules quarterTurn = .ok .dragon ∧
    rules.Perm rules' ∧ (rules.map Prod.fst).Nodup ∧ s.store.size = 2 ∧ ¬ s.contains .koch 2 ∧
    ∃ b, Species.read "other" "FX" rules' thirdTurn = .ok b ∧ s.contains b 3 ∧
      (((s.expand .dragon 3).2.run [.contains .koch 2]).expand b 3).1.tag =
        (s.expand .dragon 3).1.tag := by
  intro rules rules' history s
  obtain ⟨size, -, contains, -, same, -, reading⟩ := holds_what_was_asked .alone ⟨0⟩ history
  have read : Species.read "dragon_curve" "FX" rules quarterTurn = .ok .dragon := rfl
  have perm : rules.Perm rules' := .swap ..
  have distinct : (rules.map Prod.fst).Nodup := by decide
  obtain ⟨b, read', key⟩ := (reading _ _ _ _ _ 3 "other" rules' thirdTurn read).1 perm distinct
  refine ⟨read, perm, distinct, size, ?_, b, read', ?_, ?_⟩
  · rw [contains]
    decide
  · rw [contains, key]
    decide
  · exact (same _ _ _ _ _).mpr ⟨key, by simp⟩

end Session
end LSystem
