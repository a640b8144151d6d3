import LSystem.Studio.Operation

namespace LSystem

/-- A product, if 64 bits can hold it. -/
def counted (a b : Nat) : Option Nat := if a * b < UInt64.size then some (a * b) else none

/-- Pixels are counted first and their samples next; a picture has at least one. -/
def Extent.sampleCount? (e : Extent) : Option Nat :=
  ((counted e.width e.height).bind (counted · 4)).filter (0 < ·)

theorem Extent.sampleCount?_eq_some_iff {e : Extent} {count : Nat} :
    e.sampleCount? = some count ↔ e.Valid ∧ count = 4 * e.area := by
  simp only [sampleCount?, counted, Option.filter_eq_some_iff, Option.bind_eq_some_iff,
    Option.ite_none_right_eq_some, Option.some.injEq, decide_eq_true_eq, Valid, area]
  constructor
  · rintro ⟨⟨pixels, ⟨-, rfl⟩, fits, rfl⟩, positive⟩
    exact ⟨⟨by omega, by omega⟩, Nat.mul_comm ..⟩
  · rintro ⟨⟨positive, fits⟩, rfl⟩
    exact ⟨⟨_, ⟨by omega, rfl⟩, by omega, Nat.mul_comm ..⟩, by omega⟩

/-- A picture with as many samples as were counted. -/
def Picture.allocate (e : Extent) : Except PictureError Picture :=
  match counted : e.sampleCount? with
  | some count =>
    .ok ⟨e, Array.replicate count 0, by simp [(Extent.sampleCount?_eq_some_iff.mp counted).2]⟩
  | none => .error (.invalidExtent e)

theorem Picture.allocate_eq_create (e : Extent) : allocate e = create e := by
  unfold allocate create
  split
  · rename_i count counted
    obtain ⟨valid, rfl⟩ := Extent.sampleCount?_eq_some_iff.mp counted
    rw [if_pos valid, blank]
  · rename_i missing
    rw [if_neg]
    intro valid
    rw [Extent.sampleCount?_eq_some_iff.mpr ⟨valid, rfl⟩] at missing
    cases missing

namespace Studio

/-- A sequence of steps over a studio. When one is refused, what was done before it stays done. -/
abbrev Procedure := EStateM PictureError (Studio × Supply)

namespace Procedure

def change (f : Studio → Studio) : Procedure Unit := modify (fun (s, supply) => (f s, supply))

def picture : Procedure Picture := do
  let (s, _) ← get
  MonadExcept.ofExcept s.picture

def setWorkers (workers : Nat) : Procedure Unit := do
  change (fun s => { s with settings := { s.settings with workers } })
  change (fun s => { s with painter := s.painter.setWorkers workers })
  let (s, _) ← get
  if s.store.rewriter.workers ≠ s.painter.workers then
    change (fun s => { s with store := .empty (.ofWorkers s.painter.workers) })

def allocate (e : Extent) : Procedure Unit := do
  let picture ← MonadExcept.ofExcept (Picture.allocate e)
  change (fun s => { s with picture? := some picture })

def load (figures : List Figure) : Procedure Unit := do
  change (fun s => { s with store := s.store.clear })
  let (s, supply) ← get
  let (figures, store, supply) := Painter.prepare figures s.store supply
  set ({ s with store }, supply)
  change (fun s => { s with figures })

def clear : Procedure Unit := do
  let (s, _) ← get
  let background := s.settings.background
  let picture ← picture
  change (fun s => { s with picture? := some (picture.clear background) })

/-- A pass draws on the picture, and its figures keep the expansions that they get on the way. -/
def draw (pass : Studio → Picture → Supply → Pass) : Procedure Report := do
  let picture ← picture
  let (s, supply) ← get
  let pass := pass s picture supply
  set (s.ofPass pass, pass.supply)
  return pass.report

end Procedure

/-- The steps of an operation. -/
def Operation.procedure : Operation → Procedure Answer
  | .setWorkers workers => do Procedure.setWorkers workers; return .done
  | .allocate extent => do Procedure.allocate extent; return .done
  | .load figures => do Procedure.load figures; return .done
  | .clear => do Procedure.clear; return .done
  | .animate => return .done
  | .paint => .report <$> Procedure.draw (fun s => s.painter.paint s.figures)
  | .paintInOrder mode =>
    .report <$> Procedure.draw (fun s => s.painter.paintInOrder mode s.figures)

end Studio
end LSystem
