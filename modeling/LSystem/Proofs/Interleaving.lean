import LSystem.Picture.Writes
import Mathlib.Data.List.Basic

namespace LSystem

/-- The orders in which programs can take their steps together: each keeps its own order. -/
inductive Interleaving {α : Type} : List (List α) → List α → Prop where
  | done {programs : List (List α)} (idle : ∀ program ∈ programs, program = []) :
      Interleaving programs []
  | step {before after : List (List α)} {rest schedule : List α} (a : α)
      (h : Interleaving (before ++ rest :: after) schedule) :
      Interleaving (before ++ (a :: rest) :: after) (a :: schedule)

/-- No step of one program minds whether a step of the other comes before or after it. -/
def Commuting {α β : Type} (f : β → α → β) (us vs : List α) : Prop :=
  ∀ u ∈ us, ∀ v ∈ vs, ∀ b, f (f b u) v = f (f b v) u

theorem Commuting.tail_left {α β : Type} {f : β → α → β} {a : α} {us vs : List α}
    (h : Commuting f (a :: us) vs) : Commuting f us vs := by
  intro u hu
  exact h u (List.mem_cons_of_mem a hu)

theorem Commuting.tail_right {α β : Type} {f : β → α → β} {a : α} {us vs : List α}
    (h : Commuting f us (a :: vs)) : Commuting f us vs := by
  intro u hu v hv
  exact h u hu v (List.mem_cons_of_mem a hv)

namespace Interleaving

variable {α β : Type}

theorem cons_nil {programs : List (List α)} {schedule : List α}
    (h : Interleaving programs schedule) : Interleaving ([] :: programs) schedule := by
  induction h with
  | done idle =>
    apply Interleaving.done
    intro program hp
    rcases List.mem_cons.mp hp with rfl | hp
    · rfl
    · exact idle program hp
  | @step before after rest schedule a h ih =>
    change Interleaving (([] :: before) ++ (a :: rest) :: after) (a :: schedule)
    exact .step a ih

/-- One program after the other is one of the orders. -/
theorem sequential (programs : List (List α)) : Interleaving programs programs.flatten := by
  induction programs with
  | nil => exact .done (by simp)
  | cons program programs ih =>
    induction program with
    | nil => exact ih.cons_nil
    | cons a program further =>
      change Interleaving ([] ++ (a :: program) :: programs) (a :: (program ++ programs.flatten))
      exact .step a further

theorem foldl_comm {f : β → α → β} {a : α} {us : List α}
    (commute : ∀ u ∈ us, ∀ b, f (f b u) a = f (f b a) u) (b : β) :
    us.foldl f (f b a) = f (us.foldl f b) a := by
  induction us generalizing b with
  | nil => rfl
  | cons u us ih =>
    rw [List.foldl_cons, List.foldl_cons, ← commute u List.mem_cons_self b]
    exact ih (fun v hv => commute v (List.mem_cons_of_mem u hv)) (f b u)

/-- When different programs commute, every order leaves what they leave one after the other. -/
theorem foldl_eq {f : β → α → β} {programs : List (List α)} {schedule : List α}
    (h : Interleaving programs schedule) (commute : programs.Pairwise (Commuting f)) (b : β) :
    schedule.foldl f b = programs.flatten.foldl f b := by
  induction h generalizing b with
  | done idle => rw [List.flatten_eq_nil_iff.mpr idle]
  | @step before after rest schedule a h ih =>
    obtain ⟨among, own, between⟩ := List.pairwise_append.mp commute
    obtain ⟨later, others⟩ := List.pairwise_cons.mp own
    have fewer : (before ++ rest :: after).Pairwise (Commuting f) := by
      refine List.pairwise_append.mpr ⟨among, List.pairwise_cons.mpr ⟨?_, others⟩, ?_⟩
      · intro vs hvs
        exact (later vs hvs).tail_left
      · intro us hus vs hvs
        rcases List.mem_cons.mp hvs with rfl | hvs
        · exact (between us hus (a :: vs) List.mem_cons_self).tail_right
        · exact between us hus vs (List.mem_cons_of_mem _ hvs)
    have earlier : ∀ u ∈ before.flatten, ∀ b, f (f b u) a = f (f b a) u := by
      intro u hu
      obtain ⟨us, hus, hu⟩ := List.mem_flatten.mp hu
      exact between us hus (a :: rest) List.mem_cons_self u hu a List.mem_cons_self
    -- The first step of the order moves behind all programs that stand before its own.
    calc (a :: schedule).foldl f b
        = after.flatten.foldl f (rest.foldl f (before.flatten.foldl f (f b a))) := by
          rw [List.foldl_cons, ih fewer]
          simp
      _ = after.flatten.foldl f (rest.foldl f (f (before.flatten.foldl f b) a)) := by
          rw [foldl_comm earlier]
      _ = (before ++ (a :: rest) :: after).flatten.foldl f b := by simp

end Interleaving

namespace Write

/-- Where two programs write to the same cell, they write the same value. -/
def Agree (us vs : List Write) : Prop := ∀ u ∈ us, ∀ v ∈ vs, u.cell = v.cell → u.value = v.value

end Write

namespace Picture

/-- Writes to different cells, or of the same value, may trade places. -/
theorem write_comm (p : Picture) {u v : Write} (h : u.cell = v.cell → u.value = v.value) :
    (p.write u).write v = (p.write v).write u := by
  obtain ⟨c, x⟩ := u
  obtain ⟨d, y⟩ := v
  by_cases hc : c = d
  · subst d
    obtain rfl : x = y := h rfl
    rfl
  · simp only [write, setSample, Array.setIfInBounds_comm _ _ hc]

/-- Writers that agree leave the same picture in every order. -/
theorem writeAll_interleaving (p : Picture) {programs : List (List Write)} {schedule : List Write}
    (h : Interleaving programs schedule) (agree : programs.Pairwise Write.Agree) :
    p.writeAll schedule = p.writeAll programs.flatten := by
  have commuting : programs.Pairwise (Commuting write) := by
    apply agree.imp
    intro us vs same u hu v hv p
    exact p.write_comm (same u hu v hv)
  exact h.foldl_eq commuting p

end Picture
end LSystem
