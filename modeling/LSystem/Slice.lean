import LSystem.Rewriter

namespace LSystem

/-- A difference, unless it would fall below zero. -/
def gap? (stop start : Nat) : Option Nat := if start ≤ stop then some (stop - start) else none

/-- A part of the buffer for the next word that one worker has for itself. -/
structure Slice where
  placed : List Placed
  base : Nat
  cells : List Symbol

namespace Slice

/-- A body takes the place of as many cells. All of them must be there. -/
def copy? (cells : List Symbol) (start : Nat) (body : Word) : Option (List Symbol) :=
  if start + body.length ≤ cells.length then
    some (cells.take start ++ body ++ cells.drop (start + body.length))
  else none

/-- The cell of a symbol is one of the whole buffer, so it is counted anew from the base. -/
def place? (rules : Rules) (base : Nat) (cells : List Symbol) (p : Placed) :
    Option (List Symbol) := do
  let start ← gap? p.cell base
  copy? cells start (rules.body p.symbol)

def fill? (rules : Rules) (s : Slice) : Option (List Symbol) :=
  s.placed.foldlM (place? rules s.base) s.cells

/-- Each share takes its cells off the front of what is left of the buffer, which begins at
`base`. -/
def handOut? : Nat → List Symbol → List Share → Option (List Slice)
  | _, _, [] => some []
  | base, rest, s :: shares => do
    let size ← gap? s.stop base
    if size ≤ rest.length then
      let slices ← handOut? s.stop (rest.drop size) shares
      return ⟨s.placed, base, rest.take size⟩ :: slices
    else none

end Slice

/-- One generation in which no worker can reach the cells of another. -/
def Rewriter.rewriteApart? (r : Rewriter) (rules : Rules) (w : Word) : Option Word := do
  let layout := Layout.ofWord rules w
  let shares := layout.shares (r.shareLength layout.placed.size)
  let slices ← Slice.handOut? 0 (List.replicate layout.total 0) shares
  let filled ← slices.mapM (Slice.fill? rules)
  return filled.flatten

end LSystem
