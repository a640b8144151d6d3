import LSystem.Layout
import LSystem.System

namespace LSystem

/-- How a word is divided among workers: words below the threshold are not divided. -/
structure Rewriter where
  workers : Nat
  threshold : Nat
deriving DecidableEq

namespace Rewriter

def ofWorkers (workers : Nat) : Rewriter := ⟨max workers 1, 65536⟩

def alone : Rewriter := ofWorkers 1

def withThreshold (r : Rewriter) (threshold : Nat) : Rewriter :=
  { r with threshold := max threshold 1 }

/-- No more workers than symbols, and never none. -/
def divisions (r : Rewriter) (size : Nat) : Nat :=
  if r.threshold ≤ size then max (min r.workers size) 1 else 1

def shareLength (r : Rewriter) (size : Nat) : Nat :=
  (size + r.divisions size - 1) / r.divisions size

/-- One generation: the next word is laid out, and each share fills its own cells. -/
def rewrite (r : Rewriter) (rules : Rules) (w : Word) : Word :=
  let layout := Layout.ofWord rules w
  let shares := layout.shares (r.shareLength layout.placed.size)
  (shares.foldl (Share.fill rules) (Array.replicate layout.total 0)).toList

/-- An empty word has no further generations. -/
def derive (r : Rewriter) (rules : Rules) : Nat → Word → Word
  | 0, w => w
  | _ + 1, [] => []
  | n + 1, s :: w => r.derive rules n (r.rewrite rules (s :: w))

def expand (r : Rewriter) (system : System) (depth : Nat) : Word :=
  r.derive system.rules depth system.start

end Rewriter
end LSystem
