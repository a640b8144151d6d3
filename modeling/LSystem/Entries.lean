namespace LSystem.Entries

variable {α β : Type} [BEq α] [LawfulBEq α] {entries : List (α × β)} {k : α} {v : β}

theorem lookup_eq_none : entries.lookup k = none ↔ k ∉ entries.map Prod.fst := by
  simp only [List.lookup_eq_none_iff, bne_iff_ne, ne_eq, List.mem_map, not_exists, not_and]
  exact forall₂_congr (fun e _ => not_congr eq_comm)

theorem mem_of_lookup (found : entries.lookup k = some v) : (k, v) ∈ entries := by
  obtain ⟨before, after, rfl, -⟩ := List.lookup_eq_some_iff.mp found
  exact List.mem_append_right before List.mem_cons_self

/-- Where a key occurs once at most, no entry hides another. -/
theorem lookup_eq_some_iff_mem (once : (entries.map Prod.fst).count k ≤ 1) :
    entries.lookup k = some v ↔ (k, v) ∈ entries := by
  refine ⟨mem_of_lookup, ?_⟩
  intro here
  obtain ⟨before, after, rfl⟩ := List.append_of_mem here
  simp only [List.map_append, List.map_cons, List.count_append, List.count_cons_self] at once
  have first : before.lookup k = none := by
    rw [lookup_eq_none]
    exact List.count_eq_zero.mp (by omega)
  rw [List.lookup_append, first, Option.none_or, List.lookup_cons_self]

theorem lookup_eq_some_iff_of_nodup (distinct : (entries.map Prod.fst).Nodup) :
    entries.lookup k = some v ↔ (k, v) ∈ entries :=
  lookup_eq_some_iff_mem (List.nodup_iff_count.mp distinct k)

end LSystem.Entries
