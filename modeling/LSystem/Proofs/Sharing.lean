import LSystem.Proofs.Freshness
import LSystem.Studio.Operation

namespace LSystem

/-- Whatever happens in a garden, no tag that its figures have is still new. -/
theorem Garden.tag_run (rewriter : Rewriter) (history : List Event) :
    let g := (bare rewriter).run history
    ∀ f ∈ g.figures, ∀ e, f.expansion? = some e → e.tag < g.supply.next := by
  intro g f hf e had
  obtain ⟨i, here⟩ := List.mem_iff_getElem?.mp hf
  exact ((sound_bare rewriter).run history).tag f.key e (.figure here had)

namespace Store

variable {s t u : Store} {k : Key} {ks js : List Key} {e : Expansion}

theorem rewriter_publish (s : Store) (k : Key) (fresh : Expansion) :
    (s.publish k fresh).2.rewriter = s.rewriter := by
  unfold publish
  split <;> rfl

theorem rewriter_expand (s : Store) (k : Key) (supply : Supply) :
    (s.expand k supply).2.1.rewriter = s.rewriter := by
  unfold expand
  split
  · rfl
  · exact s.rewriter_publish k _

/-- What a store holds for a key is what the key stands for. -/
def Correct (s : Store) : Prop := ∀ k e, s.find? k = some e → e.word = k.word

theorem correct_clear (s : Store) : s.clear.Correct := by
  intro k e held
  cases held

/-- A store that was asked for some keys keeps what it held, and holds those keys as well. -/
structure Grows (s : Store) (ks : List Key) (t : Store) : Prop where
  rewriter : t.rewriter = s.rewriter
  kept : ∀ k e, s.find? k = some e → t.find? k = some e
  new : ∀ k e, t.find? k = some e → s.find? k = some e ∨ k ∈ ks ∧ e.word = k.word
  all : ∀ k ∈ ks, ∃ e, t.find? k = some e

theorem Grows.refl (s : Store) : s.Grows [] s :=
  ⟨rfl, fun _ _ held => held, fun _ _ held => Or.inl held, fun _ absent => by cases absent⟩

theorem Grows.trans (h : s.Grows ks t) (h' : t.Grows js u) : s.Grows (ks ++ js) u := by
  refine ⟨h'.rewriter.trans h.rewriter, ?_, ?_, ?_⟩
  · intro k e held
    exact h'.kept k e (h.kept k e held)
  · intro k e held
    rcases h'.new k e held with old | ⟨asked, word⟩
    · rcases h.new k e old with older | ⟨asked, word⟩
      · exact Or.inl older
      · exact Or.inr ⟨List.mem_append_left js asked, word⟩
    · exact Or.inr ⟨List.mem_append_right ks asked, word⟩
  · intro k asked
    rcases List.mem_append.mp asked with first | second
    · obtain ⟨e, held⟩ := h.all k first
      exact ⟨e, h'.kept k e held⟩
    · exact h'.all k second

theorem Grows.correct (h : s.Grows ks t) (correct : s.Correct) : t.Correct := by
  intro k e held
  rcases h.new k e held with old | ⟨-, word⟩
  · exact correct k e old
  · exact word

/-- Asked for a key, a store gives what it holds for it from then on. -/
theorem grows_expand (s : Store) (k : Key) (supply : Supply) :
    s.Grows [k] (s.expand k supply).2.1 ∧
      (s.expand k supply).2.1.find? k = some (s.expand k supply).1 := by
  have rewriter := s.rewriter_expand k supply
  rcases s.expand_cases k supply with ⟨held, found, given⟩ | ⟨missing, t, given, holds⟩
  · rw [given]
    refine ⟨⟨rfl, fun _ _ old => old, fun _ _ old => Or.inl old, ?_⟩, found⟩
    intro j asked
    rw [List.mem_singleton] at asked
    exact ⟨held, asked ▸ found⟩
  · rw [given] at rewriter ⊢
    have own : t.find? k = some ⟨supply.next, k.word⟩ := by rw [holds, if_pos rfl]
    refine ⟨⟨rewriter, ?_, ?_, ?_⟩, own⟩
    · intro j e old
      rw [holds, if_neg]
      · exact old
      · intro same
        rw [same, missing] at old
        cases old
    · intro j e held
      rw [holds] at held
      split at held
      · rename_i same
        cases held
        exact Or.inr ⟨List.mem_singleton.mpr same, by rw [same]⟩
      · exact Or.inl held
    · intro j asked
      rw [List.mem_singleton] at asked
      exact ⟨_, asked ▸ own⟩

/-- What a store takes in when it is asked for a key has a new tag. -/
theorem tag_expand (s : Store) (k : Key) (supply : Supply) :
    supply.next ≤ (s.expand k supply).2.2.next ∧
      ∀ j e, (s.expand k supply).2.1.find? j = some e →
        s.find? j = some e ∨ supply.next ≤ e.tag := by
  rcases s.expand_cases k supply with ⟨held, -, given⟩ | ⟨-, t, given, holds⟩
  · rw [given]
    exact ⟨Nat.le_refl _, fun j e old => Or.inl old⟩
  · rw [given]
    refine ⟨Nat.le_succ _, ?_⟩
    intro j e found
    rw [holds] at found
    split at found
    · cases found
      exact Or.inr (Nat.le_refl _)
    · exact Or.inl found

/-- A store that was cleared before holds just the keys that it was asked for. -/
theorem Grows.contains_iff (h : s.clear.Grows ks t) (k : Key) : t.contains k ↔ k ∈ ks := by
  rw [contains, Option.isSome_iff_exists]
  constructor
  · rintro ⟨e, held⟩
    rcases h.new k e held with old | ⟨asked, -⟩
    · cases old
    · exact asked
  · exact h.all k

end Store

namespace Figure

variable {f : Figure} {s t : Store} {ks : List Key} {e : Expansion}

/-- A figure without an expansion takes the one that the store holds for its key. -/
def takeFrom (f : Figure) (s : Store) : Figure :=
  { f with expansion? := f.expansion?.or (s.find? f.key) }

theorem takeFrom_of_had (had : f.expansion? = some e) (s : Store) : f.takeFrom s = f := by
  rw [takeFrom, had, Option.some_or, ← had]

theorem takeFrom_of_bare (bare : f.expansion? = none) (s : Store) :
    f.takeFrom s = { f with expansion? := s.find? f.key } := by
  rw [takeFrom, bare, Option.none_or]

@[simp] theorem key_takeFrom (f : Figure) (s : Store) : (f.takeFrom s).key = f.key := rfl

/-- The keys of the figures that have no expansion. -/
def bareKeys (figures : List Figure) : List Key :=
  figures.filterMap (fun f => if f.isExpanded then none else some f.key)

theorem bareKeys_cons_of_had (had : f.expansion? = some e) (figures : List Figure) :
    bareKeys (f :: figures) = bareKeys figures := by
  simp [bareKeys, isExpanded, had]

theorem bareKeys_cons_of_bare (bare : f.expansion? = none) (figures : List Figure) :
    bareKeys (f :: figures) = f.key :: bareKeys figures := by
  simp [bareKeys, isExpanded, bare]

theorem mem_bareKeys {figures : List Figure} {k : Key} :
    k ∈ bareKeys figures ↔ ∃ f ∈ figures, f.expansion? = none ∧ f.key = k := by
  rw [bareKeys, List.mem_filterMap]
  constructor
  · rintro ⟨f, hf, given⟩
    cases had : f.expansion? with
    | some e => simp [isExpanded, had] at given
    | none =>
      simp only [isExpanded, had, Option.isSome_none, Bool.false_eq_true, if_false,
        Option.some.injEq] at given
      exact ⟨f, hf, had, given⟩
  · rintro ⟨f, hf, bare, rfl⟩
    exact ⟨f, hf, by simp [isExpanded, bare]⟩

/-- Figures of one key have one expansion, or none of them has any. -/
def Agree (figures : List Figure) : Prop :=
  ∀ f ∈ figures, ∀ g ∈ figures, f.key = g.key → f.expansion? = g.expansion?

theorem Agree.takeFrom {figures : List Figure} (agree : Agree figures) (s : Store) :
    Agree (figures.map (·.takeFrom s)) := by
  intro f' hf' g' hg' key
  obtain ⟨f, hf, rfl⟩ := List.mem_map.mp hf'
  obtain ⟨g, hg, rfl⟩ := List.mem_map.mp hg'
  rw [key_takeFrom, key_takeFrom] at key
  simp only [Figure.takeFrom, agree f hf g hg key, key]

/-- Figures agree on what they took from a store only if they agreed before, where none came with an
expansion that the store holds. -/
theorem agree_takeFrom_iff {figures : List Figure}
    (apart : ∀ f ∈ figures, ∀ e, f.expansion? = some e → ∀ k, s.find? k ≠ some e) :
    Agree (figures.map (·.takeFrom s)) ↔ Agree figures := by
  refine ⟨?_, fun agree => agree.takeFrom s⟩
  intro agree f hf g hg key
  have taken : f.expansion?.or (s.find? f.key) = g.expansion?.or (s.find? g.key) :=
    agree _ (List.mem_map_of_mem hf) _ (List.mem_map_of_mem hg) key
  cases had : f.expansion? with
  | some e =>
    rw [had, Option.some_or] at taken
    cases had' : g.expansion? with
    | some e' => rwa [had', Option.some_or] at taken
    | none =>
      rw [had', Option.none_or] at taken
      exact absurd taken.symm (apart f hf e had _)
  | none =>
    cases had' : g.expansion? with
    | some e' =>
      rw [had, had', Option.none_or, Option.some_or] at taken
      exact absurd taken (apart g hg e' had' _)
    | none => rfl

/-- A figure without an expansion takes what the store holds from then on, and all else stays. -/
theorem takeFrom_eq {figures : List Figure} (grows : s.Grows (bareKeys figures) t)
    (hf : f ∈ figures) :
    (∀ e, f.expansion? = some e → f.takeFrom t = f) ∧
      (f.expansion? = none →
        ∃ e, f.takeFrom t = { f with expansion? := some e } ∧ t.find? f.key = some e) := by
  refine ⟨fun e had => takeFrom_of_had had t, ?_⟩
  intro bare
  obtain ⟨e, held⟩ := grows.all f.key (mem_bareKeys.mpr ⟨f, hf, bare, rfl⟩)
  exact ⟨e, by rw [takeFrom_of_bare bare, held], held⟩

/-- A figure that took its expansion from a store has one, its own or one of its key. -/
theorem expansion_takeFrom {figures : List Figure} (grows : s.Grows (bareKeys figures) t)
    (correct : s.Correct) (hf : f ∈ figures) :
    ∃ e, (f.takeFrom t).expansion? = some e ∧ (f.expansion? = some e ∨ e.word = f.key.word) := by
  obtain ⟨keeps, takes⟩ := takeFrom_eq grows hf
  cases had : f.expansion? with
  | some e => exact ⟨e, by rw [keeps e had, had], Or.inl rfl⟩
  | none =>
    obtain ⟨e, taken, held⟩ := takes had
    exact ⟨e, by rw [taken], Or.inr (grows.correct correct _ e held)⟩

theorem isExpanded_takeFrom {figures : List Figure} (grows : s.Grows (bareKeys figures) t)
    (correct : s.Correct) (hf : f ∈ figures) : (f.takeFrom t).isExpanded := by
  obtain ⟨e, has, -⟩ := expansion_takeFrom grows correct hf
  rw [isExpanded, has, Option.isSome_some]

end Figure

namespace Painter

/-- Prepared figures have what the store holds for them in the end. -/
theorem prepare_eq (figures : List Figure) (s : Store) (supply : Supply) :
    ∃ t rest, prepare figures s supply = (figures.map (·.takeFrom t), t, rest) ∧
      s.Grows (Figure.bareKeys figures) t := by
  induction figures generalizing s supply with
  | nil => exact ⟨s, supply, rfl, .refl s⟩
  | cons f figures ih =>
    cases had : f.expansion? with
    | some e =>
      obtain ⟨t, rest, prepared, grows⟩ := ih s supply
      refine ⟨t, rest, ?_, by rwa [Figure.bareKeys_cons_of_had had]⟩
      simp only [prepare, Figure.expandFrom, had, prepared, List.map_cons,
        Figure.takeFrom_of_had had]
    | none =>
      obtain ⟨first, own⟩ := s.grows_expand f.key supply
      obtain ⟨t, rest, prepared, grows⟩ :=
        ih (s.expand f.key supply).2.1 (s.expand f.key supply).2.2
      refine ⟨t, rest, ?_, ?_⟩
      · simp only [prepare, Figure.expandFrom, had, prepared, List.map_cons,
          Figure.takeFrom_of_bare had, grows.kept _ _ own]
      · rw [Figure.bareKeys_cons_of_bare had]
        exact first.trans grows

/-- Figures that are all expanded need nothing. -/
theorem prepare_of_expanded {figures : List Figure} (expanded : ∀ f ∈ figures, f.isExpanded)
    (s : Store) (supply : Supply) : prepare figures s supply = (figures, s, supply) := by
  induction figures with
  | nil => rfl
  | cons f figures ih =>
    obtain ⟨e, had⟩ := Option.isSome_iff_exists.mp (expanded f List.mem_cons_self)
    have rest := ih (fun g hg => expanded g (List.mem_cons_of_mem f hg))
    simp only [prepare, Figure.expandFrom, had, rest]

/-- What a store takes in while figures are prepared has a new tag. -/
theorem tag_prepare (figures : List Figure) (s : Store) (supply : Supply) {k : Key}
    {e : Expansion} (held : (prepare figures s supply).2.1.find? k = some e) :
    s.find? k = some e ∨ supply.next ≤ e.tag := by
  induction figures generalizing s supply with
  | nil => exact Or.inl held
  | cons f figures ih =>
    cases had : f.expansion? with
    | some own =>
      simp only [prepare, Figure.expandFrom, had] at held
      exact ih s supply held
    | none =>
      simp only [prepare, Figure.expandFrom, had] at held
      obtain ⟨later, old⟩ := s.tag_expand f.key supply
      rcases ih _ _ held with before | new
      · exact old k e before
      · exact Or.inr (Nat.le_trans later new)

end Painter

namespace Studio

theorem load_eq (s : Studio) (figures : List Figure) (supply : Supply) :
    ∃ t rest, s.load figures supply =
        ({ s with figures := figures.map (·.takeFrom t), store := t }, rest) ∧
      s.store.clear.Grows (Figure.bareKeys figures) t := by
  obtain ⟨t, rest, prepared, grows⟩ := Painter.prepare_eq figures s.store.clear supply
  exact ⟨t, rest, by simp only [load, prepared], grows⟩

/-- Figures that are all expanded leave nothing in the store when they come again. -/
theorem load_of_expanded {s : Studio} (expanded : ∀ f ∈ s.figures, f.isExpanded)
    (supply : Supply) : s.load s.figures supply = ({ s with store := s.store.clear }, supply) := by
  rw [load, Painter.prepare_of_expanded expanded]

/-- Figures of one key have one expansion, the one that the store holds for the key, and the store
holds no other keys. -/
structure Shares (s : Studio) : Prop where
  same : Figure.Agree s.figures
  held : ∀ f ∈ s.figures, ∃ e, f.expansion? = some e ∧ s.store.find? f.key = some e
  keys : ∀ k, s.store.contains k ↔ ∃ f ∈ s.figures, f.key = k

section

variable {s t : Studio} {figures : List Figure}

theorem shares_of_bare (taken : t.figures = figures.map (·.takeFrom t.store))
    (grows : s.store.clear.Grows (Figure.bareKeys figures) t.store)
    (bare : ∀ f ∈ figures, f.expansion? = none) : t.Shares := by
  have agree : Figure.Agree figures := by
    intro f hf g hg _
    rw [bare f hf, bare g hg]
  refine ⟨?_, ?_, ?_⟩
  · rw [taken]
    exact agree.takeFrom t.store
  · intro g hg
    rw [taken] at hg
    obtain ⟨f, hf, rfl⟩ := List.mem_map.mp hg
    obtain ⟨e, taken, held⟩ := (Figure.takeFrom_eq grows hf).2 (bare f hf)
    exact ⟨e, by rw [taken], held⟩
  · intro k
    rw [grows.contains_iff, Figure.mem_bareKeys, taken]
    constructor
    · rintro ⟨f, hf, -, rfl⟩
      exact ⟨_, List.mem_map_of_mem hf, rfl⟩
    · rintro ⟨g, hg, rfl⟩
      obtain ⟨f, hf, rfl⟩ := List.mem_map.mp hg
      exact ⟨f, hf, bare f hf, rfl⟩

/-- A figure that comes with an expansion which the store does not hold spoils the sharing. -/
theorem bare_of_shares (taken : t.figures = figures.map (·.takeFrom t.store))
    (apart : ∀ f ∈ figures, ∀ e, f.expansion? = some e → ∀ k, t.store.find? k ≠ some e)
    (shares : t.Shares) : ∀ f ∈ figures, f.expansion? = none := by
  intro f hf
  cases had : f.expansion? with
  | none => rfl
  | some e =>
    have here : f.takeFrom t.store ∈ t.figures := taken ▸ List.mem_map_of_mem hf
    obtain ⟨e', given, held⟩ := shares.held _ here
    rw [Figure.takeFrom_of_had had, had] at given
    cases given
    exact absurd held (apart f hf e had _)

end

/-- The store of a studio holds nothing that was there before its figures came. -/
theorem tag_load (s : Studio) (figures : List Figure) (supply : Supply) {k : Key} {e : Expansion}
    (held : (s.load figures supply).1.store.find? k = some e) : supply.next ≤ e.tag := by
  rcases Painter.tag_prepare figures s.store.clear supply held with old | new
  · cases old
  · exact new

/-- Of the figures that come to a studio those without an expansion share what the store holds for
their keys, and it holds these keys alone. A figure that comes with an expansion keeps it. So all
share just if none comes with one, where tags that figures come with are never new, and the figures
of a studio that come to it again leave it an empty store. -/
theorem load_shares_among_bare (s : Studio) (figures : List Figure) (supply : Supply) :
    let t := (s.load figures supply).1
    t.figures.length = figures.length ∧
    (∀ (i : Nat) f g, figures[i]? = some f → t.figures[i]? = some g → g.key = f.key ∧
      (∀ e, f.expansion? = some e → g = f) ∧
      (f.expansion? = none →
        ∃ e, g = { f with expansion? := some e } ∧ t.store.find? g.key = some e)) ∧
    (∀ (i j : Nat) f f' g g', figures[i]? = some f → figures[j]? = some f' →
      t.figures[i]? = some g → t.figures[j]? = some g' →
        f.expansion? = none → f'.expansion? = none → g.key = g'.key →
          g.expansion? = g'.expansion?) ∧
    (∀ k, t.store.contains k ↔ ∃ f ∈ figures, f.expansion? = none ∧ f.key = k) ∧
    ((∀ f ∈ figures, f.expansion? = none) → t.Shares) ∧
    ((∀ f ∈ figures, ∀ e, f.expansion? = some e → e.tag < supply.next) →
      (t.Shares ↔ ∀ f ∈ figures, f.expansion? = none) ∧
      (Figure.Agree t.figures ↔ Figure.Agree figures)) ∧
    ∀ later, t.load t.figures later = ({ t with store := t.store.clear }, later) := by
  have new (k : Key) (e : Expansion) := s.tag_load figures supply (k := k) (e := e)
  obtain ⟨store, rest, loaded, grows⟩ := s.load_eq figures supply
  rw [loaded] at new ⊢
  intro t
  have bound {i : Nat} {f g : Figure} (here : figures[i]? = some f)
      (there : t.figures[i]? = some g) : g = f.takeFrom store := by
    simp only [t, List.getElem?_map, here, Option.map_some, Option.some.injEq] at there
    exact there.symm
  have keys (k : Key) : t.store.contains k ↔ ∃ f ∈ figures, f.expansion? = none ∧ f.key = k :=
    (grows.contains_iff k).trans Figure.mem_bareKeys
  have shares (bare : ∀ f ∈ figures, f.expansion? = none) : t.Shares :=
    shares_of_bare rfl grows bare
  refine ⟨List.length_map .., ?_, ?_, keys, shares, ?_, ?_⟩
  · intro i f g here there
    obtain rfl := bound here there
    exact ⟨rfl, Figure.takeFrom_eq grows (List.mem_of_getElem? here)⟩
  · intro i j f f' g g' here here' there there' bare bare' key
    obtain rfl := bound here there
    obtain rfl := bound here' there'
    rw [Figure.key_takeFrom, Figure.key_takeFrom] at key
    rw [Figure.takeFrom_of_bare bare, Figure.takeFrom_of_bare bare', key]
  · intro known
    -- What the store holds has a tag that was new when the figures came with theirs.
    have apart (f : Figure) (hf : f ∈ figures) (e : Expansion) (had : f.expansion? = some e)
        (k : Key) : store.find? k ≠ some e := by
      intro held
      exact Nat.not_lt_of_le (new k e held) (known f hf e had)
    exact ⟨⟨bare_of_shares rfl apart, shares⟩, Figure.agree_takeFrom_iff apart⟩
  · apply load_of_expanded
    intro g hg
    obtain ⟨f, hf, rfl⟩ := List.mem_map.mp hg
    exact Figure.isExpanded_takeFrom grows s.store.correct_clear hf

/-- Of three curves the second was expanded by itself. The other two share, and it keeps its own, so
that curves of one key have two expansions. -/
theorem load_shares_among_bare_mixed :
    let bare : Figure := ⟨.koch, ⟨0, 0⟩, 0, 1, ⟨1, 0, 0⟩, 1, none⟩
    let own := (bare.expand ⟨0⟩).2.1
    let t := ((ofSettings .usual).load [bare, own, bare] ⟨1⟩).1
    (∃ f g h, t.figures = [f, g, h] ∧ g = own ∧ f.expansion? = h.expansion? ∧
      t.store.find? f.key = f.expansion? ∧ t.store.contains f.key) ∧
    ¬ t.Shares ∧ ¬ Figure.Agree t.figures := by
  intro bare own t
  obtain ⟨length, each, pairs, keys, -, all, -⟩ :=
    load_shares_among_bare (ofSettings .usual) [bare, own, bare] ⟨1⟩
  refine ⟨?_, ?_⟩
  · obtain ⟨f, g, h, bound⟩ := List.length_eq_three.mp length
    have at' (i : Nat) : t.figures[i]? = [f, g, h][i]? := congrArg (·[i]?) bound
    obtain ⟨key, -, takes⟩ := each 0 bare f rfl (at' 0)
    obtain ⟨key', -, -⟩ := each 2 bare h rfl (at' 2)
    obtain ⟨e, given, held⟩ := takes rfl
    refine ⟨f, g, h, bound, ?_, ?_, ?_, ?_⟩
    · exact (each 1 own g rfl (at' 1)).2.1 _ rfl
    · exact pairs 0 2 bare bare f h rfl rfl (at' 0) (at' 2) rfl rfl (key.trans key'.symm)
    · rw [held, given]
    · exact (keys f.key).mpr ⟨bare, .head _, rfl, key.symm⟩
  · let planted : Garden.Event := .plant .koch ⟨0, 0⟩ 0 1 ⟨1, 0, 0⟩ 1
    have known : ∀ f ∈ [bare, own, bare], ∀ e, f.expansion? = some e → e.tag < 1 :=
      Garden.tag_run .alone [planted, .copy 0, .copy 0, .ask 1 .own]
    obtain ⟨shares, agree⟩ := all known
    refine ⟨?_, ?_⟩
    · intro shared
      cases shares.mp shared own (.tail _ (.head _))
    · intro agreed
      cases agree.mp agreed bare (.head _) own (.tail _ (.head _)) rfl

end Studio
end LSystem
