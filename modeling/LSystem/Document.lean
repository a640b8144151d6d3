import LSystem.Json.Record
import LSystem.Json.Reader
import LSystem.Studio.Basic

namespace LSystem.Document

def natural : Json → Option Nat
  | .number n =>
    match n.toInt? with
    | some (.ofNat k) => some k
    | _ => none
  | _ => none

def number : Json → Option Float32
  | .number n => n.toFloat32?
  | _ => none

def boolean : Json → Option Bool
  | .bool b => some b
  | _ => none

/-- A list of numbers is read from an array alone. -/
def numbers : Json → Option (List Float32)
  | .array items => items.mapM number
  | _ => none

def point (v : Json) : Option Point :=
  match numbers v with
  | some [x, y] => some ⟨x, y⟩
  | _ => none

def rgb (v : Json) : Option Rgb :=
  match numbers v with
  | some [red, green, blue] => some ⟨red, green, blue⟩
  | _ => none

def rgba (v : Json) : Option Rgba :=
  match numbers v with
  | some [red, green, blue, alpha] => some ⟨red, green, blue, alpha⟩
  | _ => none

def walkSettings (v : Json) : Option WalkSettings :=
  match Json.fields ["max_stack_depth", "jitter"] v with
  | some [maxSaved, jitter] => do
    let maxSaved ← Json.orElse natural WalkSettings.usual.maxSaved maxSaved
    let jitter ← Json.orElse boolean WalkSettings.usual.jitter jitter
    return { maxSaved, jitter }
  | _ => none

def settings (v : Json) : Option Settings :=
  match Json.fields ["thread_count", "background", "jitter_seed", "interpreter"] v with
  | some [workers, background, seed, walk] => do
    let workers ← Json.orElse natural Settings.usual.workers workers
    let background ← Json.orElse rgba Settings.usual.background background
    let seed ← Json.orElse (fun v => (natural v).map UInt64.ofNat) Settings.usual.seed seed
    let walk ← Json.orElse walkSettings Settings.usual.walk walk
    return { workers, background, seed, walk }
  | _ => none

def pose (v : Json) : Option Pose :=
  match Json.fields ["position", "heading"] v with
  | some [some position, some heading] => do
    return { position := ← point position, heading := ← number heading }
  | _ => none

def segment (v : Json) : Option Segment :=
  match Json.fields ["start", "end", "color"] v with
  | some [some start, some stop, some colour] => do
    return { start := ← point start, stop := ← point stop, colour := ← rgb colour }
  | _ => none

/-- A mode with a part is the one member of an object. -/
def mode : Json → Option Mode
  | .text "Overwrite" => some .overwrite
  | .object [("Overwrite", .null)] => some .overwrite
  | .object [("Blend", body)] =>
    match Json.fields ["alpha"] body with
    | some [some alpha] => (number alpha).map .blend
    | _ => none
  | _ => none

def read {α : Type} (decode : Json → Option α) (text : String) : Option α :=
  (Json.read text).bind decode

end LSystem.Document
