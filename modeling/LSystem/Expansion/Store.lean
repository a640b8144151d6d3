import LSystem.Entries
import LSystem.Expansion.Basic

namespace LSystem

/-- All that a derivation depends on. -/
structure Key where
  system : System
  depth : Nat
deriving DecidableEq

/-- Expansions to be shared, at most one for a key. -/
structure Store where
  rewriter : Rewriter
  entries : List (Key × Expansion)
  distinct : (entries.map Prod.fst).Nodup

namespace Store

def empty (rewriter : Rewriter) : Store := ⟨rewriter, [], .nil⟩

def find? (s : Store) (k : Key) : Option Expansion := s.entries.lookup k

def contains (s : Store) (k : Key) : Bool := (s.find? k).isSome

def size (s : Store) : Nat := s.entries.length

def isEmpty (s : Store) : Bool := s.entries.isEmpty

def clear (s : Store) : Store := empty s.rewriter

/-- The first expansion published for a key stays, and everyone gets it. -/
def publish (s : Store) (k : Key) (fresh : Expansion) : Expansion × Store :=
  match h : s.find? k with
  | some held => (held, s)
  | none =>
    (fresh,
      { s with
        entries := (k, fresh) :: s.entries
        distinct := List.nodup_cons.mpr ⟨Entries.lookup_eq_none.mp h, s.distinct⟩ })

/-- An expansion that is not held is derived, tagged anew and published. -/
def expand (s : Store) (k : Key) (supply : Supply) : Expansion × Store × Supply :=
  match s.find? k with
  | some held => (held, s, supply)
  | none =>
    let (fresh, supply) := supply.mint (s.rewriter.expand k.system k.depth)
    let (held, s) := s.publish k fresh
    (held, s, supply)

/-- No entry of a store is hidden by another one. -/
theorem find?_eq_some_iff {s : Store} {k : Key} {e : Expansion} :
    s.find? k = some e ↔ (k, e) ∈ s.entries :=
  Entries.lookup_eq_some_iff_of_nodup s.distinct

@[simp] theorem find?_empty (r : Rewriter) (k : Key) : (empty r).find? k = none := rfl

/-- Publishing changes what is found for its key only, and only if nothing was. -/
theorem find?_publish (s : Store) (k j : Key) (fresh : Expansion) :
    (s.publish k fresh).2.find? j =
      if j = k then some ((s.find? k).getD fresh) else s.find? j := by
  unfold publish
  split
  · rename_i held h
    by_cases hj : j = k
    · simp [hj, h]
    · simp [hj]
  · rename_i h
    by_cases hj : j = k
    · simp only [find?] at h
      simp [find?, hj, h]
    · simp [find?, List.lookup_cons, hj, beq_false_of_ne]

end Store
end LSystem
