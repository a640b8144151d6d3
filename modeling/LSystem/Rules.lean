import LSystem.Entries
import LSystem.Word

namespace LSystem

/-- At most one body for a head; the heads ascend. -/
structure Rules where
  entries : List (Symbol × Word)
  ascending : entries.Pairwise (fun a b => a.1 < b.1)
deriving DecidableEq

namespace Rules

def empty : Rules := ⟨[], .nil⟩

def find? (r : Rules) (s : Symbol) : Option Word := r.entries.lookup s

/-- The body takes the place of an earlier one with the same head. -/
def put (head : Symbol) (body : Word) : List (Symbol × Word) → List (Symbol × Word)
  | [] => [(head, body)]
  | (h, b) :: rest =>
    if head < h then (head, body) :: (h, b) :: rest
    else if head = h then (head, body) :: rest
    else (h, b) :: put head body rest

theorem mem_put {head : Symbol} {body : Word} {es : List (Symbol × Word)} {e : Symbol × Word}
    (he : e ∈ put head body es) : e = (head, body) ∨ e ∈ es := by
  induction es with
  | nil => simpa [put] using he
  | cons d rest ih =>
    obtain ⟨h, b⟩ := d
    simp only [put] at he
    split at he
    · simpa using he
    · split at he
      · simp only [List.mem_cons] at he ⊢
        rcases he with he | he
        · exact .inl he
        · exact .inr (.inr he)
      · simp only [List.mem_cons] at he ⊢
        rcases he with he | he
        · exact .inr (.inl he)
        · rcases ih he with h' | h'
          · exact .inl h'
          · exact .inr (.inr h')

theorem put_ascending (head : Symbol) (body : Word) {es : List (Symbol × Word)}
    (h : es.Pairwise (fun a b => a.1 < b.1)) :
    (put head body es).Pairwise (fun a b => a.1 < b.1) := by
  induction es with
  | nil => simp [put]
  | cons d rest ih =>
    obtain ⟨k, b⟩ := d
    obtain ⟨hk, hr⟩ := List.pairwise_cons.mp h
    simp only [put]
    split
    · rename_i lt
      refine List.pairwise_cons.mpr ⟨fun e he => ?_, h⟩
      rcases List.mem_cons.mp he with he | he
      · subst e; exact lt
      · exact UInt8.lt_trans lt (hk e he)
    · split
      · rename_i eq
        subst k
        exact List.pairwise_cons.mpr ⟨hk, hr⟩
      · rename_i nlt ne
        refine List.pairwise_cons.mpr ⟨fun e he => ?_, ih hr⟩
        rcases mem_put he with he | he
        · subst e
          exact UInt8.lt_of_le_of_ne (UInt8.not_lt.mp nlt) (fun h => ne h.symm)
        · exact hk e he

def insert (r : Rules) (head : Symbol) (body : Word) : Rules :=
  ⟨put head body r.entries, put_ascending head body r.ascending⟩

/-- A symbol without a rule stands for itself. -/
def body (r : Rules) (s : Symbol) : Word := (r.find? s).getD [s]

def width (r : Rules) (s : Symbol) : Nat := (r.find? s).elim 1 List.length

@[simp] theorem length_body (r : Rules) (s : Symbol) : (r.body s).length = r.width s := by
  unfold body width
  cases r.find? s <;> rfl

@[simp] theorem find?_empty (s : Symbol) : empty.find? s = none := rfl

theorem lookup_put (head : Symbol) (body : Word) (es : List (Symbol × Word)) (s : Symbol) :
    (put head body es).lookup s = if s = head then some body else es.lookup s := by
  induction es with
  | nil => by_cases hs : s = head <;> simp [put, List.lookup_cons, hs, beq_false_of_ne]
  | cons d rest ih =>
    obtain ⟨k, b⟩ := d
    simp only [put]
    split
    · by_cases hs : s = head <;> simp [List.lookup_cons, hs, beq_false_of_ne]
    · split
      · rename_i eq
        subst k
        by_cases hs : s = head <;> simp [List.lookup_cons, hs, beq_false_of_ne]
      · rename_i ne
        by_cases hk : s = k
        · subst s
          simp [Ne.symm ne]
        · simp [List.lookup_cons, hk, beq_false_of_ne, ih]

/-- Insertion changes what is found for its head only. -/
theorem find?_insert (r : Rules) (head : Symbol) (body : Word) (s : Symbol) :
    (r.insert head body).find? s = if s = head then some body else r.find? s :=
  lookup_put head body r.entries s

theorem distinct (r : Rules) : (r.entries.map Prod.fst).Nodup :=
  List.pairwise_map.mpr (r.ascending.imp UInt8.ne_of_lt)

/-- No entry of a table is hidden by another one. -/
theorem find?_eq_some_iff {r : Rules} {s : Symbol} {body : Word} :
    r.find? s = some body ↔ (s, body) ∈ r.entries :=
  Entries.lookup_eq_some_iff_of_nodup r.distinct

/-- A table is what it finds: it has the same entries in the same order. -/
theorem ext_find? {r t : Rules} (h : ∀ s, r.find? s = t.find? s) : r = t := by
  have entries : r.entries.Perm t.entries := by
    have once (r : Rules) : r.entries.Nodup :=
      r.ascending.imp (fun lt same => UInt8.ne_of_lt lt (congrArg Prod.fst same))
    refine (List.perm_ext_iff_of_nodup (once r) (once t)).mpr ?_
    rintro ⟨s, body⟩
    rw [← find?_eq_some_iff, ← find?_eq_some_iff, h]
  have same := entries.eq_of_pairwise
    (fun a b _ _ lt gt => absurd (UInt8.lt_trans lt gt) (UInt8.lt_irrefl _)) r.ascending t.ascending
  exact (Rules.mk.injEq ..).mpr same

end Rules
end LSystem
