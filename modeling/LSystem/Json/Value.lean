import LSystem.Json.Number

namespace LSystem

/-- The value of a document, with every member in order. A text with half a surrogate pair is well
formed, but no string holds it: it is unreadable, and so is an object with such a name. -/
inductive Json where
  | null
  | bool (b : Bool)
  | number (n : Json.Number)
  | text (t : String)
  | array (items : List Json)
  | object (members : List (String × Json))
  | unreadable

end LSystem
