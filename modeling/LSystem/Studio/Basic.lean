import LSystem.Painter.Basic

namespace LSystem

structure Settings where
  workers : Nat
  background : Rgba
  seed : UInt64
  walk : WalkSettings
deriving DecidableEq

def Settings.usual : Settings := ⟨8, ⟨1, 1, 1, 1⟩, 0, .usual⟩

/-- A picture and the figures on it, with all that is needed to draw them. -/
structure Studio where
  settings : Settings
  painter : Painter
  store : Store
  picture? : Option Picture
  figures : List Figure

namespace Studio

def ofSettings (settings : Settings) : Studio :=
  let painter := { Painter.ofWorkers settings.workers (.usual settings.walk) with
    seed := settings.seed }
  { settings, painter
    store := .empty (.ofWorkers painter.workers)
    picture? := none
    figures := [] }

/-- Another number of workers needs another store; the figures keep what they have. -/
def setWorkers (s : Studio) (workers : Nat) : Studio :=
  let painter := s.painter.setWorkers workers
  { s with
    settings := { s.settings with workers }
    painter
    store :=
      if s.store.rewriter.workers = painter.workers then s.store
      else .empty (.ofWorkers painter.workers) }

def allocate (s : Studio) (e : Extent) : Except PictureError Studio :=
  match Picture.create e with
  | .ok picture => .ok { s with picture? := some picture }
  | .error e => .error e

/-- The store holds nothing but what these figures need. -/
def load (s : Studio) (figures : List Figure) (supply : Supply) : Studio × Supply :=
  let (figures, store, supply) := Painter.prepare figures s.store.clear supply
  ({ s with figures, store }, supply)

def picture (s : Studio) : Except PictureError Picture :=
  match s.picture? with
  | some picture => .ok picture
  | none => .error .noPicture

def clear (s : Studio) : Except PictureError Studio :=
  match s.picture? with
  | some picture => .ok { s with picture? := some (picture.clear s.settings.background) }
  | none => .error .noPicture

/-- Nothing moves from frame to frame yet. -/
def animate (s : Studio) : Studio := s

def ofPass (s : Studio) (pass : Pass) : Studio :=
  { s with figures := pass.figures, picture? := some pass.picture }

def paint (s : Studio) (supply : Supply) : Except PictureError (Report × Studio × Supply) :=
  match s.picture? with
  | some picture =>
    let pass := s.painter.paint s.figures picture supply
    .ok (pass.report, s.ofPass pass, pass.supply)
  | none => .error .noPicture

def paintInOrder (s : Studio) (mode : Mode) (supply : Supply) :
    Except PictureError (Report × Studio × Supply) :=
  match s.picture? with
  | some picture =>
    let pass := s.painter.paintInOrder mode s.figures picture supply
    .ok (pass.report, s.ofPass pass, pass.supply)
  | none => .error .noPicture

end Studio
end LSystem
