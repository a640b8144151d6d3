import LSystem.Proofs.Acceptance
import LSystem.Proofs.Census

namespace LSystem

/-- Every symbol of a text that can be read is an ASCII byte. -/
theorem Word.lt_of_mem_ofText {text : String} (plain : Plain text) :
    ∀ s ∈ Word.ofText text, s < 128 := by
  intro s hs
  obtain ⟨c, hc, rfl⟩ := List.mem_map.mp hs
  have small : c.toNat < 128 := Nat.not_le.mp (plain c hc)
  rw [UInt8.lt_iff_toNat_lt, Symbol.toNat_ofChar (plain c hc)]
  exact small

/-- The next depth is one generation more, even where a word is empty. -/
theorem Rewriter.expand_succ (r : Rewriter) (system : System) (depth : Nat) :
    r.expand system (depth + 1) = system.rules.next (r.expand system depth) := by
  simp only [expand, derive_eq_iterate, Function.iterate_succ_apply']

namespace System

theorem mem_letters {g : System} {s : Symbol} : s ∈ g.letters ↔
    s ∈ g.start ∨ ∃ head body, g.rules.find? head = some body ∧ s ∈ body := by
  simp only [letters, List.mem_append, List.mem_flatMap, Prod.exists, Rules.find?_eq_some_iff]

theorem letters_of_read {start : String} {rules : List (Char × String)} {g : System}
    (read : System.read start rules = .ok g) : ∀ s ∈ g.letters, s < 128 := by
  obtain ⟨plain, all, given⟩ := plain_of_read read
  intro s hs
  rw [mem_letters] at hs
  rcases hs with here | ⟨head, body, found, here⟩
  · rw [given] at here
    exact Word.lt_of_mem_ofText plain s here
  · rw [find?_read read] at found
    obtain ⟨text, last, rfl⟩ := Option.map_eq_some_iff.mp found
    obtain ⟨-, plain⟩ := all _ (Rules.mem_of_lastBody last)
    exact Word.lt_of_mem_ofText plain s here

end System

namespace Species

/-- How a species comes about: its texts are read, or it is a preset, or it is one of these with
another turn. -/
inductive Obtained : Species → Prop where
  | read {name start : String} {rules : List (Char × String)} {turn : Float32} {s : Species}
      (given : Species.read name start rules turn = .ok s) : Obtained s
  | preset {s : Species} (given : s ∈ [koch, fern, dragon, sierpinski]) : Obtained s
  | turned {s : Species} (given : Obtained s) (turn : Float32) : Obtained (s.withTurn turn)

theorem read_of_preset {s : Species} (hs : s ∈ [koch, fern, dragon, sierpinski]) :
    ∃ start rules, read s.name start rules s.turn = .ok s := by
  simp only [List.mem_cons, List.not_mem_nil, or_false] at hs
  rcases hs with rfl | rfl | rfl | rfl
  all_goals exact ⟨_, _, read_eq_ofText _ _ (by decide) (by decide)⟩

/-- The system of every species could have been read from texts. -/
theorem Obtained.system_read {s : Species} (h : s.Obtained) :
    ∃ start rules, System.read start rules = .ok s.system := by
  induction h with
  | read given => exact ⟨_, _, system_of_read given⟩
  | preset given =>
    obtain ⟨start, rules, accepted⟩ := read_of_preset given
    exact ⟨start, rules, system_of_read accepted⟩
  | turned _ turn ih => exact ih

/-- An expansion has no symbols but those of the start and of the bodies, and these are all ASCII.
Nothing that the buffer for the next word held before is left in it, in no generation, so a zero is
there only where the species has one. -/
theorem expansion_keeps_to_letters (r : Rewriter) {s : Species} (h : s.Obtained) (depth : Nat) :
    (∀ c ∈ r.expand s.system depth, c < 128 ∧ (c ∈ s.system.start ∨
      ∃ head body, s.system.rules.find? head = some body ∧ c ∈ body)) ∧
    ∀ cells : Array Symbol,
      let layout := Layout.ofWord s.system.rules (r.expand s.system depth)
      cells.size = layout.total →
        ((layout.shares (r.shareLength layout.placed.size)).foldl (Share.fill s.system.rules)
          cells).toList = r.expand s.system (depth + 1) := by
  obtain ⟨start, rules, read⟩ := h.system_read
  refine ⟨?_, ?_⟩
  · intro c hc
    rw [Rewriter.expand, Rewriter.derive_eq_iterate] at hc
    have letter := s.system.letters_iterate depth c hc
    exact ⟨System.letters_of_read read c letter, System.mem_letters.mp letter⟩
  · intro cells layout size
    have filled := Layout.written_shares s.system.rules (r.expand s.system depth)
      (r.divided _) (size.trans (Layout.total_ofWord ..))
    rw [Layout.size_placed_ofWord, Share.foldl_fill, filled, r.expand_succ]

/-- Zeros that do stand in an expansion come from a body, here one more in each generation, while
`B` is erased. -/
theorem expansion_keeps_to_letters_dotted :
    ∃ s, read "dotted" "A" [('A', "AB\x00"), ('B', "")] quarterTurn = .ok s ∧
      ((Rewriter.ofWorkers 4).withThreshold 1).expand (s.withTurn thirdTurn).system 2 =
        [65, 66, 0, 0] ∧
      ∃ head body, s.system.rules.find? head = some body ∧ 0 ∈ body := by
  have accepted : read "dotted" "A" [('A', "AB\x00"), ('B', "")] quarterTurn =
      .ok (ofText "dotted" "A" [('A', "AB\x00"), ('B', "")] quarterTurn) :=
    read_eq_ofText _ _ (by decide) (by decide)
  have grown : ((Rewriter.ofWorkers 4).withThreshold 1).expand
      ((ofText "dotted" "A" [('A', "AB\x00"), ('B', "")] quarterTurn).withTurn thirdTurn).system 2 =
        [65, 66, 0, 0] := by decide
  obtain ⟨keeps, -⟩ := expansion_keeps_to_letters ((Rewriter.ofWorkers 4).withThreshold 1)
    ((Obtained.read accepted).turned thirdTurn) 2
  refine ⟨_, accepted, grown, ?_⟩
  rw [grown] at keeps
  rcases (keeps 0 (by decide)).2 with start | body
  · exact absurd start (by decide)
  · exact body

end Species
end LSystem
