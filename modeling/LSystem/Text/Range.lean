namespace LSystem.Text

/-- A code point lies in one of the closed ranges. -/
def Within (ranges : List (Nat × Nat)) (n : Nat) : Prop :=
  ∃ r ∈ ranges, r.1 ≤ n ∧ n ≤ r.2

instance (ranges : List (Nat × Nat)) (n : Nat) : Decidable (Within ranges n) :=
  inferInstanceAs (Decidable (∃ r ∈ ranges, r.1 ≤ n ∧ n ≤ r.2))

end LSystem.Text
