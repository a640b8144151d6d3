import LSystem.Rules

namespace LSystem

/-- A symbol of a word, and the cell of the next word where its body begins. -/
structure Placed where
  symbol : Symbol
  cell : Nat

/-- Each symbol's place, and the number of cells that the whole next word takes. -/
structure Layout where
  placed : Array Placed
  total : Nat

namespace Layout

/-- Bodies follow one another without gaps, so the widths before a symbol add up to its cell. -/
def ofWord (rules : Rules) (w : Word) : Layout :=
  w.foldl (fun l s => ⟨l.placed.push ⟨s, l.total⟩, l.total + rules.width s⟩) ⟨#[], 0⟩

/-- The cell where symbol `i` begins; past the last symbol this is the end of the word. -/
def cellAt (l : Layout) (i : Nat) : Nat := (l.placed[i]?.map Placed.cell).getD l.total

end Layout

/-- A run of neighbouring symbols with the cells that their bodies fill. -/
structure Share where
  placed : List Placed
  first : Nat
  stop : Nat

namespace Layout

/-- Share `i` when every share but the last takes `length` symbols. -/
def share (l : Layout) (length i : Nat) : Share where
  placed := (l.placed.extract (i * length) ((i + 1) * length)).toList
  first := l.cellAt (i * length)
  stop := l.cellAt ((i + 1) * length)

/-- The shares in order; together they take every symbol once. -/
def shares (l : Layout) (length : Nat) : List Share :=
  (List.range ((l.placed.size + length - 1) / length)).map (l.share length)

end Layout

namespace Share

/-- A share counts its cells from its own first one. -/
def writes (rules : Rules) (s : Share) : List (Symbol × Nat) :=
  s.placed.flatMap (fun p => (rules.body p.symbol).zipIdx (s.first + (p.cell - s.first)))

def fill (rules : Rules) (cells : Array Symbol) (s : Share) : Array Symbol :=
  (s.writes rules).foldl (fun cells (symbol, cell) => cells.setIfInBounds cell symbol) cells

end Share
end LSystem
