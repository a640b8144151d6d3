import LSystem.Json.Value

namespace LSystem.Json

def find? (name : String) (members : List (String × Json)) : Option Json := members.lookup name

def count (name : String) (members : List (String × Json)) : Nat :=
  members.countP (fun m => m.1 == name)

/-- What a document gives to each field of a record, in the order of the names. An object may
hold other members; an array may end early. -/
def fields (names : List String) : Json → Option (List (Option Json))
  | .object members =>
    if names.all (fun n => count n members ≤ 1) then some (names.map (find? · members)) else none
  | .array items =>
    if items.length ≤ names.length then
      some (items.map some ++ List.replicate (names.length - items.length) none)
    else none
  | _ => none

/-- A field that is not given takes its default. -/
def orElse {α : Type} (decode : Json → Option α) (default : α) : Option Json → Option α
  | none => some default
  | some v => decode v

end LSystem.Json
