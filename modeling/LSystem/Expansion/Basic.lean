import LSystem.Rewriter

namespace LSystem

/-- A finished word; the tag tells shared words from equal ones. -/
structure Expansion where
  tag : Nat
  word : Word
deriving DecidableEq

/-- The tags from `next` on belong to no expansion yet. -/
structure Supply where
  next : Nat
deriving DecidableEq

def Supply.mint (s : Supply) (word : Word) : Expansion × Supply :=
  (⟨s.next, word⟩, ⟨s.next + 1⟩)

end LSystem
