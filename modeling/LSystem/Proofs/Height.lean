import LSystem.Turtle.Walk

namespace LSystem

/-- What begins a word made of two begins the first one or goes on into the second. -/
theorem Word.prefix_append_cases {u v w : Word} (h : w <+: u ++ v) :
    w <+: u ∨ ∃ x, x <+: v ∧ w = u ++ x := by
  rcases List.prefix_or_prefix_of_prefix h (List.prefix_append u v) with short | ⟨x, rfl⟩
  · exact Or.inl short
  · rw [List.prefix_append_right_inj] at h
    exact Or.inr ⟨x, h, rfl⟩

namespace Alphabet

/-- A push opens a branch and a pop closes one. -/
def rise (a : Alphabet) (s : Symbol) : Int :=
  match a.command s with
  | .push => 1
  | .pop => -1
  | _ => 0

/-- How many more pushes than pops a word has. -/
def height (a : Alphabet) : Word → Int
  | [] => 0
  | s :: w => a.rise s + a.height w

@[simp] theorem height_nil (a : Alphabet) : a.height [] = 0 := rfl

@[simp] theorem height_cons (a : Alphabet) (s : Symbol) (w : Word) :
    a.height (s :: w) = a.rise s + a.height w := rfl

@[simp] theorem height_append (a : Alphabet) (u v : Word) :
    a.height (u ++ v) = a.height u + a.height v := by
  induction u with
  | nil => simp
  | cons s u ih => rw [List.cons_append, height_cons, height_cons, ih, Int.add_assoc]

theorem rise_push {a : Alphabet} {s : Symbol} (h : a.command s = .push) : a.rise s = 1 := by
  simp [rise, h]

theorem rise_pop {a : Alphabet} {s : Symbol} (h : a.command s = .pop) : a.rise s = -1 := by
  simp [rise, h]

theorem rise_level {a : Alphabet} {s : Symbol} (hpush : a.command s ≠ .push)
    (hpop : a.command s ≠ .pop) : a.rise s = 0 := by
  cases hc : a.command s <;> simp_all [rise]

end Alphabet
end LSystem
