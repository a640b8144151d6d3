import LSystem.Studio.Basic

namespace LSystem.Studio

/-- All that changes a studio. -/
inductive Operation where
  | setWorkers (workers : Nat)
  | allocate (extent : Extent)
  | load (figures : List Figure)
  | clear
  | animate
  | paint
  | paintInOrder (mode : Mode)

inductive Answer where
  | done
  | report (r : Report)
  | refused (e : PictureError)
deriving DecidableEq

/-- A refused operation leaves the studio as it was. -/
def perform (s : Studio) (supply : Supply) : Operation → Answer × Studio × Supply
  | .setWorkers workers => (.done, s.setWorkers workers, supply)
  | .allocate extent =>
    match s.allocate extent with
    | .ok t => (.done, t, supply)
    | .error e => (.refused e, s, supply)
  | .load figures =>
    let (t, supply) := s.load figures supply
    (.done, t, supply)
  | .clear =>
    match s.clear with
    | .ok t => (.done, t, supply)
    | .error e => (.refused e, s, supply)
  | .animate => (.done, s.animate, supply)
  | .paint =>
    match s.paint supply with
    | .ok (r, t, supply) => (.report r, t, supply)
    | .error e => (.refused e, s, supply)
  | .paintInOrder mode =>
    match s.paintInOrder mode supply with
    | .ok (r, t, supply) => (.report r, t, supply)
    | .error e => (.refused e, s, supply)

/-- What comes of a pass over the picture of a studio, if the pass does not stop. -/
def answer? (s : Studio) (supply : Supply) (pass : Picture → Option Pass) :
    Option (Answer × Studio × Supply) :=
  match s.picture? with
  | some picture =>
    (pass picture).map (fun pass => (.report pass.report, s.ofPass pass, pass.supply))
  | none => some (.refused .noPicture, s, supply)

/-- An operation, unless a pass stops: then there is neither an answer nor a studio. -/
def perform? (s : Studio) (supply : Supply) : Operation → Option (Answer × Studio × Supply)
  | .paint => s.answer? supply (s.painter.paint? s.figures · supply)
  | .paintInOrder mode => s.answer? supply (s.painter.paintInOrder? mode s.figures · supply)
  | o => some (s.perform supply o)

def run? (s : Studio) (supply : Supply) : List Operation → Option (Studio × Supply)
  | [] => some (s, supply)
  | o :: rest => do
    let (_, t, supply) ← s.perform? supply o
    t.run? supply rest

/-- The studio after a sequence of operations. -/
def run (s : Studio) (supply : Supply) : List Operation → Studio × Supply
  | [] => (s, supply)
  | o :: rest =>
    let (_, t, supply) := s.perform supply o
    t.run supply rest

/-- What was asked, each with its answer. -/
def log (s : Studio) (supply : Supply) : List Operation → List (Operation × Answer)
  | [] => []
  | o :: rest =>
    let (a, t, supply) := s.perform supply o
    (o, a) :: t.log supply rest

end LSystem.Studio
