import LSystem.Expansion.Session

namespace LSystem

/-- How far a caller has come. What it derives is its own until it publishes it. -/
inductive Stage where
  | idle
  | missed (species : Species) (depth : Nat)
  | derived (species : Species) (depth : Nat) (fresh : Expansion)

/-- A store that any number of callers use at once. They take the store step by step, and between
two steps of one caller there may be steps of others. -/
structure Commons where
  store : Store
  supply : Supply
  stage : Nat → Stage

namespace Commons

def opened (rewriter : Rewriter) (supply : Supply) : Commons :=
  ⟨.empty rewriter, supply, fun _ => .idle⟩

def move (c : Commons) (caller : Nat) (s : Stage) : Commons :=
  { c with stage := fun i => if i = caller then s else c.stage i }

/-- What a call gives to its caller. -/
structure Reply where
  caller : Nat
  species : Species
  depth : Nat
  expansion : Expansion

def Reply.key (r : Reply) : Key := r.species.key r.depth

/-- All that can happen. A call is a hit, or it is a miss, a derivation and a publication. -/
inductive Event where
  | hit (r : Reply)
  | miss (caller : Nat) (species : Species) (depth : Nat)
  | derive (caller : Nat)
  | publish (r : Reply)
  | clear

/-- The reply with which a call ends. -/
def Event.reply? : Event → Option Reply
  | .hit r | .publish r => some r
  | .miss _ _ _ | .derive _ | .clear => none

def replies (events : List Event) : List Reply := events.filterMap Event.reply?

/-- A derivation leaves the store alone: others may publish or clear before it is published. -/
inductive Step (c : Commons) : Event → Commons → Prop where
  | hit {caller : Nat} {species : Species} {depth : Nat} {held : Expansion}
      (free : c.stage caller = .idle)
      (found : c.store.find? (species.key depth) = some held) :
      Step c (.hit ⟨caller, species, depth, held⟩) c
  | miss {caller : Nat} {species : Species} {depth : Nat}
      (free : c.stage caller = .idle) (missing : c.store.find? (species.key depth) = none) :
      Step c (.miss caller species depth) (c.move caller (.missed species depth))
  | derive {caller : Nat} {species : Species} {depth : Nat} {fresh : Expansion} {supply : Supply}
      (missed : c.stage caller = .missed species depth)
      (minted : c.supply.mint (c.store.rewriter.expand species.system depth) = (fresh, supply)) :
      Step c (.derive caller) { c.move caller (.derived species depth fresh) with supply }
  | publish {caller : Nat} {species : Species} {depth : Nat} {fresh : Expansion}
      (derived : c.stage caller = .derived species depth fresh) :
      Step c
        (.publish ⟨caller, species, depth, (c.store.publish (species.key depth) fresh).1⟩)
        { c.move caller .idle with store := (c.store.publish (species.key depth) fresh).2 }
  | clear : Step c .clear { c with store := c.store.clear }

/-- Steps in the order in which they are taken. -/
inductive Run : Commons → List Event → Commons → Prop where
  | nil {c : Commons} : Run c [] c
  | cons {c d last : Commons} {event : Event} {later : List Event} (step : c.Step event d)
      (rest : Run d later last) : Run c (event :: later) last

end Commons
end LSystem
