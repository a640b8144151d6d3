import LSystem.Json.Token
import LSystem.Json.Value

namespace LSystem.Json

/-- A value that is not closed yet, with what it holds so far, the last one first; no members
remain of an object once it is unreadable. -/
inductive Frame where
  | array (items : List Json)
  | object (members : Option (List (String × Json)))
  | member (members : Option (List (String × Json))) (key : Option String)

/-- What may come next. -/
inductive Expected where
  | value | valueOrEnd | nextOrEnd | key | keyOrEnd | colon
deriving DecidableEq

structure Reader where
  expected : Expected
  frames : List Frame
  result : Option Json

/-- The members with one more in front, if all of them have names. -/
def addMember (key : Option String) (v : Json) (members : Option (List (String × Json))) :
    Option (List (String × Json)) :=
  match key, members with
  | some key, some members => some ((key, v) :: members)
  | _, _ => none

namespace Reader

def start : Reader := ⟨.value, [], none⟩

/-- A finished value belongs to the innermost open one. -/
def place (r : Reader) (v : Json) : Option Reader :=
  match r.frames with
  | [] => some { r with expected := .nextOrEnd, result := some v }
  | .array items :: frames =>
    some { r with expected := .nextOrEnd, frames := .array (v :: items) :: frames }
  | .member members key :: frames =>
    some { r with expected := .nextOrEnd, frames := .object (addMember key v members) :: frames }
  | .object _ :: _ => none

def isValueExpected (r : Reader) : Bool :=
  r.expected == .value || r.expected == .valueOrEnd

def next (r : Reader) : Token → Option Reader
  | .null => if r.isValueExpected then r.place .null else none
  | .bool b => if r.isValueExpected then r.place (.bool b) else none
  | .number n => if r.isValueExpected then r.place (.number n) else none
  | .text t =>
    if r.isValueExpected then r.place (t.elim .unreadable .text)
    else if r.expected = .key ∨ r.expected = .keyOrEnd then
      match r.frames with
      | .object members :: frames =>
        some { r with expected := .colon, frames := .member members t :: frames }
      | _ => none
    else none
  | .openArray =>
    if r.isValueExpected then
      some { r with expected := .valueOrEnd, frames := .array [] :: r.frames }
    else none
  | .openObject =>
    if r.isValueExpected then
      some { r with expected := .keyOrEnd, frames := .object (some []) :: r.frames }
    else none
  | .closeArray =>
    if r.expected = .valueOrEnd ∨ r.expected = .nextOrEnd then
      match r.frames with
      | .array items :: frames => { r with frames }.place (.array items.reverse)
      | _ => none
    else none
  | .closeObject =>
    if r.expected = .keyOrEnd ∨ r.expected = .nextOrEnd then
      match r.frames with
      | .object members :: frames =>
        { r with frames }.place (members.elim .unreadable (fun ms => .object ms.reverse))
      | _ => none
    else none
  | .comma =>
    if r.expected = .nextOrEnd then
      match r.frames with
      | .array _ :: _ => some { r with expected := .value }
      | .object _ :: _ => some { r with expected := .key }
      | _ => none
    else none
  | .colon => if r.expected = .colon then some { r with expected := .value } else none

def read (r : Reader) : List Token → Option Json
  | [] => if r.frames.isEmpty then r.result else none
  | t :: rest =>
    match r.next t with
    | none => none
    | some r => r.read rest

end Reader

/-- A text holds one value, and nothing follows it. -/
def read (text : String) : Option Json :=
  match tokens text.toList with
  | none => none
  | some ts => Reader.start.read ts

end LSystem.Json
