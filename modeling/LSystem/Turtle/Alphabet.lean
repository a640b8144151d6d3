import LSystem.Word

namespace LSystem

/-- What a symbol tells the turtle; a turn's sign scales the turn of the species. -/
inductive Command where
  | draw | move | turn (sign : Float32) | around | push | pop | ignore
deriving DecidableEq

/-- Commands by symbol; symbols past the last one are ignored. -/
structure Alphabet where
  commands : Array Command
deriving DecidableEq

namespace Alphabet

def empty : Alphabet := ⟨#[]⟩

def command (a : Alphabet) (s : Symbol) : Command := (a.commands[s.toNat]?).getD .ignore

def assign (a : Alphabet) (s : Symbol) (c : Command) : Alphabet :=
  let room := a.commands ++ Array.replicate (s.toNat + 1 - a.commands.size) Command.ignore
  ⟨room.setIfInBounds s.toNat c⟩

def conventional : List (Char × Command) :=
  [('F', .draw), ('G', .draw), ('f', .move), ('+', .turn 1), ('-', .turn (-1)), ('|', .around),
    ('[', .push), (']', .pop)]

/-- Conventional symbols take their usual meaning again; the others keep theirs. -/
def addConventional (a : Alphabet) : Alphabet :=
  conventional.foldl (fun a (c, command) => a.assign (Symbol.ofChar c) command) a

def standard : Alphabet := empty.addConventional

/-- Assignment changes one symbol only. -/
theorem command_assign (a : Alphabet) (s t : Symbol) (c : Command) :
    (a.assign s c).command t = if t = s then c else a.command t := by
  have eq : s.toNat = t.toNat ↔ t = s := by
    rw [UInt8.toNat_inj]; exact eq_comm
  simp only [command, assign, Array.getElem?_setIfInBounds, Array.size_append,
    Array.size_replicate, Array.getElem?_append, Array.getElem?_replicate, eq]
  by_cases h : t = s
  · subst t
    have inside : s.toNat < a.commands.size + (s.toNat + 1 - a.commands.size) := by omega
    simp [inside]
  · simp only [h, ↓reduceIte]
    by_cases known : t.toNat < a.commands.size
    · simp [known]
    · have beyond : a.commands.size ≤ t.toNat := by omega
      simp only [known, ↓reduceIte, Array.getElem?_eq_none beyond, Option.getD_none]
      split <;> rfl

end Alphabet
end LSystem
