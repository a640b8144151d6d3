import LSystem.Expansion.Store
import LSystem.Species

namespace LSystem

/-- What the expansion of a species is stored under: neither its name nor its turn counts. -/
def Species.key (s : Species) (depth : Nat) : Key := ⟨s.system, depth⟩

/-- A store in use, with the tags that it has not given yet. -/
structure Session where
  store : Store
  supply : Supply

namespace Session

/-- All that can be asked of a store. -/
inductive Call where
  | expand (species : Species) (depth : Nat)
  | contains (species : Species) (depth : Nat)
  | clear

def opened (rewriter : Rewriter) (supply : Supply) : Session := ⟨.empty rewriter, supply⟩

def expand (s : Session) (species : Species) (depth : Nat) : Expansion × Session :=
  let (e, store, supply) := s.store.expand (species.key depth) s.supply
  (e, ⟨store, supply⟩)

def contains (s : Session) (species : Species) (depth : Nat) : Bool :=
  s.store.contains (species.key depth)

def clear (s : Session) : Session := { s with store := s.store.clear }

def perform (s : Session) : Call → Session
  | .expand species depth => (s.expand species depth).2
  | .contains _ _ => s
  | .clear => s.clear

def run (s : Session) (history : List Call) : Session := history.foldl perform s

end Session
end LSystem
