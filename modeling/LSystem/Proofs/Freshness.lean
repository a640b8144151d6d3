import LSystem.Figure.Garden
import LSystem.Proofs.Generation

namespace LSystem

/-- The word that a key stands for. -/
def Key.word (k : Key) : Word := Rewriter.alone.expand k.system k.depth

theorem Rewriter.expand_eq_word (r : Rewriter) (k : Key) : r.expand k.system k.depth = k.word :=
  (r.derive_eq_iterate ..).trans (alone.derive_eq_iterate ..).symm

namespace Store

variable {s : Store} {k : Key} {supply : Supply}

theorem publish_of_find?_none (h : s.find? k = none) (fresh : Expansion) :
    (s.publish k fresh).1 = fresh := by
  unfold publish
  split
  · rename_i held found
    rw [h] at found
    cases found
  · rfl

/-- What is held comes back; what is not is derived under a new tag, and held from then on. -/
theorem expand_cases (s : Store) (k : Key) (supply : Supply) :
    (∃ held, s.find? k = some held ∧ s.expand k supply = (held, s, supply)) ∨
      (s.find? k = none ∧ ∃ t : Store,
        s.expand k supply = (⟨supply.next, k.word⟩, t, ⟨supply.next + 1⟩) ∧
          ∀ j, t.find? j = if j = k then some ⟨supply.next, k.word⟩ else s.find? j) := by
  unfold expand
  cases found : s.find? k with
  | some held => exact Or.inl ⟨held, rfl, rfl⟩
  | none =>
    rw [s.rewriter.expand_eq_word]
    refine Or.inr ⟨rfl, (s.publish k ⟨supply.next, k.word⟩).2, ?_, ?_⟩
    · simp only [Supply.mint, publish_of_find?_none found]
    · intro j
      rw [find?_publish, found]
      rfl

end Store

namespace Figure

/-- Where the expansion that a figure gives comes from: the figure has it, the store holds it, or it
is derived under a new tag, and then the store holds it for no other key. -/
inductive Gives (f : Figure) (request : Request) (store : Store) (supply : Supply) :
    Expansion → Store → Supply → Prop where
  | own {e : Expansion} (had : f.expansion? = some e) : Gives f request store supply e store supply
  | shared {e : Expansion} (missing : f.expansion? = none) (asked : request = .shared)
      (held : store.find? f.key = some e) : Gives f request store supply e store supply
  | derived {t : Store} (missing : f.expansion? = none)
      (kept : ∀ j, t.find? j = store.find? j ∨
        j = f.key ∧ t.find? j = some ⟨supply.next, f.key.word⟩) :
      Gives f request store supply ⟨supply.next, f.key.word⟩ t ⟨supply.next + 1⟩

/-- Asked for its expansion a figure gives one, and has it from then on. -/
theorem answer_gives (f : Figure) (request : Request) (store : Store) (supply : Supply) :
    ∃ e t s, f.answer request store supply = (e, { f with expansion? := some e }, t, s) ∧
      f.Gives request store supply e t s := by
  cases had : f.expansion? with
  | some e =>
    have same : { f with expansion? := some e } = f := by rw [← had]
    refine ⟨e, store, supply, ?_, .own had⟩
    rw [same]
    cases request <;> simp [answer, expand, expandFrom, had]
  | none =>
    cases request with
    | own =>
      refine ⟨_, store, _, ?_, .derived had (fun j => Or.inl rfl)⟩
      simp [answer, expand, had, Supply.mint, Key.word, key]
    | shared =>
      rcases store.expand_cases f.key supply with ⟨e, found, given⟩ | ⟨-, t, given, holds⟩
      · refine ⟨e, store, supply, ?_, .shared had rfl found⟩
        simp [answer, expandFrom, had, given]
      · refine ⟨_, t, _, ?_, .derived had ?_⟩
        · simp [answer, expandFrom, had, given]
        · intro j
          rw [holds]
          split
          · rename_i same
            exact Or.inr ⟨same, rfl⟩
          · exact Or.inl rfl

/-- A change that leaves a figure an expansion leaves it the one it had, and its key. -/
def Careful (change : Figure → Figure) : Prop :=
  ∀ f e, (change f).expansion? = some e → f.expansion? = some e ∧ (change f).key = f.key

/-- A figure without its expansion. -/
def unexpanded (f : Figure) : Figure := { f with expansion? := none }

theorem unexpanded_setDepth (depth : Nat) (f : Figure) :
    (f.setDepth depth).unexpanded = { f.unexpanded with depth } := by
  unfold setDepth
  split
  · rename_i same
    rw [same]
    rfl
  · rfl

theorem unexpanded_setSpecies (species : Species) (f : Figure) :
    (f.setSpecies species).unexpanded = { f.unexpanded with species } := by
  unfold setSpecies
  split <;> rfl

theorem careful_setDepth (depth : Nat) : Careful (·.setDepth depth) := by
  intro f e kept
  dsimp only at kept ⊢
  unfold setDepth at kept ⊢
  split
  · rename_i same
    rw [if_pos same] at kept
    exact ⟨kept, rfl⟩
  · rename_i other
    rw [if_neg other] at kept
    cases kept

theorem careful_setSpecies (species : Species) : Careful (·.setSpecies species) := by
  intro f e kept
  dsimp only at kept ⊢
  unfold setSpecies at kept ⊢
  split
  · rename_i same
    rw [if_pos same] at kept
    exact ⟨kept, by rw [key, key, same]⟩
  · rename_i other
    rw [if_neg other] at kept
    cases kept

end Figure

namespace Garden

variable {g : Garden} {k : Key} {c e : Expansion} {i : Nat}

/-- An expansion that a figure or the store has, and the key that it is there for. -/
inductive Keeps (g : Garden) : Key → Expansion → Prop where
  | figure {i : Nat} {f : Figure} {e : Expansion} (here : g.figures[i]? = some f)
      (kept : f.expansion? = some e) : Keeps g f.key e
  | store {k : Key} {e : Expansion} (held : g.store.find? k = some e) : Keeps g k e

/-- All expansions are those of their keys, and their tags are no longer new. -/
structure Sound (g : Garden) : Prop where
  word : ∀ k e, g.Keeps k e → e.word = k.word
  tag : ∀ k e, g.Keeps k e → e.tag < g.supply.next

theorem sound_bare (rewriter : Rewriter) : (bare rewriter).Sound := by
  have nothing (k : Key) (e : Expansion) : ¬ (bare rewriter).Keeps k e := by
    intro kept
    cases kept with
    | figure here kept => cases here
    | store held => cases held
  exact ⟨fun k e kept => absurd kept (nothing k e), fun k e kept => absurd kept (nothing k e)⟩

/-- Nothing is kept after an event but what was kept before, and what the event derived under the
next tag. -/
def Adds (g h : Garden) : Prop :=
  (h.supply = g.supply ∧ ∀ k e, h.Keeps k e → g.Keeps k e) ∨
    (h.supply.next = g.supply.next + 1 ∧
      ∀ k e, h.Keeps k e → g.Keeps k e ∨ e = ⟨g.supply.next, k.word⟩)

theorem Sound.adds {h : Garden} (sound : g.Sound) (adds : g.Adds h) : h.Sound := by
  rcases adds with ⟨same, before⟩ | ⟨next, before⟩
  · refine ⟨?_, ?_⟩
    · intro k e kept
      exact sound.word k e (before k e kept)
    · intro k e kept
      rw [same]
      exact sound.tag k e (before k e kept)
  · refine ⟨?_, ?_⟩
    · intro k e kept
      rcases before k e kept with old | rfl
      · exact sound.word k e old
      · rfl
    · intro k e kept
      rw [next]
      rcases before k e kept with old | rfl
      · exact Nat.lt_succ_of_lt (sound.tag k e old)
      · exact Nat.lt_succ_self _

theorem adds_change {change : Figure → Figure} (careful : Figure.Careful change) (g : Garden)
    (i : Nat) : g.Adds (g.change i change) := by
  refine Or.inl ⟨rfl, ?_⟩
  intro k e kept
  cases kept with
  | @figure j f e here kept =>
    simp only [Garden.change, List.getElem?_modify, Option.map_eq_map,
      Option.map_eq_some_iff] at here
    obtain ⟨old, here, rfl⟩ := here
    by_cases hit : i = j
    · rw [if_pos hit] at kept ⊢
      obtain ⟨kept, same⟩ := careful old e kept
      rw [same]
      exact .figure here kept
    · rw [if_neg hit] at kept ⊢
      exact .figure here kept
  | store held => exact .store held

theorem adds_append {fs : List Figure} (known : ∀ f ∈ fs, ∀ e, f.expansion? = some e →
    g.Keeps f.key e) : g.Adds { g with figures := g.figures ++ fs } := by
  refine Or.inl ⟨rfl, ?_⟩
  intro k e kept
  cases kept with
  | @figure j f e here kept =>
    rcases List.mem_append.mp (List.mem_of_getElem? here) with old | new
    · obtain ⟨j, here⟩ := List.mem_iff_getElem?.mp old
      exact .figure here kept
    · exact known f new e kept
  | store held => exact .store held

/-- An answer of a garden is one of a figure, which keeps its place. -/
theorem ask_gives {h : Garden} {request : Request} (asked : g.ask i request = some (e, h)) :
    ∃ f t s, g.figures[i]? = some f ∧
      h = ⟨g.figures.set i { f with expansion? := some e }, t, s⟩ ∧
      f.Gives request g.store g.supply e t s := by
  cases here : g.figures[i]? with
  | none =>
    simp only [ask, here] at asked
    cases asked
  | some f =>
    obtain ⟨d, t, s, given, gives⟩ := f.answer_gives request g.store g.supply
    simp only [ask, here, given] at asked
    cases asked
    exact ⟨f, t, s, rfl, rfl, gives⟩

theorem keeps_set {f : Figure} {t : Store} {s : Supply}
    (kept : Keeps ⟨g.figures.set i { f with expansion? := some e }, t, s⟩ k c) :
    (k = f.key ∧ c = e) ∨ g.Keeps k c ∨ t.find? k = some c := by
  cases kept with
  | figure there had =>
    rw [List.getElem?_set] at there
    split at there
    · split at there
      · cases there
        cases had
        exact Or.inl ⟨rfl, rfl⟩
      · cases there
    · exact Or.inr (Or.inl (.figure there had))
  | store held => exact Or.inr (Or.inr held)

theorem adds_ask {h : Garden} {request : Request} (asked : g.ask i request = some (e, h)) :
    g.Adds h := by
  obtain ⟨f, t, s, here, rfl, gives⟩ := ask_gives asked
  cases gives with
  | own had =>
    refine Or.inl ⟨rfl, ?_⟩
    intro k c kept
    rcases keeps_set kept with ⟨rfl, rfl⟩ | old | held
    · exact .figure here had
    · exact old
    · exact .store held
  | shared missing asked found =>
    refine Or.inl ⟨rfl, ?_⟩
    intro k c kept
    rcases keeps_set kept with ⟨rfl, rfl⟩ | old | held
    · exact .store found
    · exact old
    · exact .store held
  | derived missing grows =>
    refine Or.inr ⟨rfl, ?_⟩
    intro k c kept
    rcases keeps_set kept with ⟨rfl, rfl⟩ | old | held
    · exact Or.inr rfl
    · exact Or.inl old
    · rcases grows k with same | ⟨rfl, new⟩
      · rw [same] at held
        exact Or.inl (.store held)
      · rw [new] at held
        cases held
        exact Or.inr rfl

theorem adds_perform (g : Garden) (event : Event) : g.Adds (g.perform event) := by
  cases event with
  | plant species origin heading step colour depth =>
    apply adds_append
    intro f hf e kept
    rw [List.mem_singleton] at hf
    subst f
    cases kept
  | copy i =>
    apply adds_append
    intro f hf e kept
    rw [Option.mem_toList] at hf
    exact .figure hf kept
  | setDepth i depth => exact adds_change (Figure.careful_setDepth depth) g i
  | setSpecies i species => exact adds_change (Figure.careful_setSpecies species) g i
  | restyle i origin heading step colour =>
    apply adds_change
    intro f e kept
    exact ⟨kept, rfl⟩
  | ask i request =>
    simp only [perform]
    cases asked : g.ask i request with
    | none => exact Or.inl ⟨rfl, fun _ _ kept => kept⟩
    | some answer => exact adds_ask asked
  | fetch k =>
    rcases g.store.expand_cases k g.supply with ⟨held, -, given⟩ | ⟨-, t, given, holds⟩
    · simp only [perform, given]
      exact Or.inl ⟨rfl, fun _ _ kept => kept⟩
    · simp only [perform, given]
      refine Or.inr ⟨rfl, ?_⟩
      intro j e kept
      cases kept with
      | figure here kept => exact Or.inl (.figure here kept)
      | store held =>
        rw [holds] at held
        split at held
        · rename_i same
          cases held
          exact Or.inr (by rw [same])
        · exact Or.inl (.store held)
  | clearStore =>
    refine Or.inl ⟨rfl, ?_⟩
    intro k e kept
    cases kept with
    | figure here kept => exact .figure here kept
    | store held => cases held

theorem Sound.run (sound : g.Sound) (history : List Event) : (g.run history).Sound := by
  induction history generalizing g with
  | nil => exact sound
  | cons event history ih => exact ih (sound.adds (g.adds_perform event))

/-- Figure `i` has this expansion. -/
def Owns (g : Garden) (i : Nat) (e : Expansion) : Prop :=
  ∃ f, g.figures[i]? = some f ∧ f.expansion? = some e

theorem owns_ask {h : Garden} {request : Request} (asked : g.ask i request = some (e, h)) :
    h.Owns i e := by
  obtain ⟨f, t, s, here, rfl, -⟩ := ask_gives asked
  have inside : i < g.figures.length := (List.getElem?_eq_some_iff.mp here).1
  exact ⟨_, List.getElem?_set_self inside, rfl⟩

theorem ask_of_owns (owns : g.Owns i e) (request : Request) : ∃ h, g.ask i request = some (e, h) := by
  obtain ⟨f, here, had⟩ := owns
  cases request <;> simp [ask, here, Figure.answer, Figure.expand, Figure.expandFrom, had]

/-- A figure gives what its key stands for and has it from then on. What it did not have and could
not share is new: nothing in the garden has the tag. -/
theorem Sound.ask (sound : g.Sound) {f : Figure} (here : g.figures[i]? = some f)
    (request : Request) :
    ∃ e h, g.ask i request = some (e, h) ∧ e.word = f.key.word ∧ h.Owns i e ∧
      (f.expansion? = none → request = .own ∨ g.store.find? f.key = none →
        ∀ k d, g.Keeps k d → d.tag ≠ e.tag) := by
  obtain ⟨e, h, asked⟩ : ∃ e h, g.ask i request = some (e, h) := by simp [Garden.ask, here]
  obtain ⟨other, t, s, there, -, gives⟩ := ask_gives asked
  obtain rfl : f = other := Option.some.inj (here.symm.trans there)
  refine ⟨e, h, asked, ?_, owns_ask asked, ?_⟩
  · cases gives with
    | own had => exact sound.word _ e (.figure here had)
    | shared missing asked held => exact sound.word _ e (.store held)
    | derived missing kept => rfl
  · intro missing alone k d kept
    cases gives with
    | own had =>
      rw [missing] at had
      cases had
    | shared missing asked held =>
      rcases alone with own | unknown
      · rw [own] at asked
        cases asked
      · rw [unknown] at held
        cases held
    | derived missing grows => exact Nat.ne_of_lt (sound.tag k d kept)

/-- The event gives figure `i` another depth or another system, and so another expansion. -/
def Renews (g : Garden) (i : Nat) : Event → Prop
  | .setDepth k depth => k = i ∧ ∃ f, g.figures[i]? = some f ∧ depth ≠ f.depth
  | .setSpecies k species =>
    k = i ∧ ∃ f, g.figures[i]? = some f ∧ species.system ≠ f.species.system
  | _ => False

/-- After some events figure `j` is what figure `i` was before them, or a copy of it, or a copy of
a copy, and nothing on the way renewed it. -/
inductive Line : Garden → List Event → Nat → Nat → Prop where
  | here {g : Garden} {i : Nat} : Line g [] i i
  | same {g : Garden} {event : Event} {later : List Event} {i j : Nat}
      (calm : ¬ g.Renews i event) (rest : Line (g.perform event) later i j) :
      Line g (event :: later) i j
  | copied {g : Garden} {later : List Event} {i j : Nat}
      (rest : Line (g.perform (.copy i)) later g.figures.length j) :
      Line g (.copy i :: later) i j

theorem owns_append (owns : g.Owns i e) (fs : List Figure) :
    Owns { g with figures := g.figures ++ fs } i e := by
  obtain ⟨f, here, had⟩ := owns
  have inside : i < g.figures.length := (List.getElem?_eq_some_iff.mp here).1
  exact ⟨f, (List.getElem?_append_left inside).trans here, had⟩

theorem owns_change {k : Nat} {change : Figure → Figure} {f : Figure}
    (here : g.figures[i]? = some f) (had : f.expansion? = some e)
    (spared : k = i → (change f).expansion? = some e) : (g.change k change).Owns i e := by
  by_cases hit : k = i
  · exact ⟨change f, by simp [Garden.change, here, hit], spared hit⟩
  · exact ⟨f, by simp [Garden.change, here, hit], had⟩

/-- A figure keeps its expansion through every event that does not renew it. -/
theorem owns_perform {event : Event} (owns : g.Owns i e) (calm : ¬ g.Renews i event) :
    (g.perform event).Owns i e := by
  obtain ⟨f, here, had⟩ := id owns
  cases event with
  | plant species origin heading step colour depth => exact owns_append owns _
  | copy k => exact owns_append owns _
  | setDepth k depth =>
    apply owns_change here had
    intro hit
    have same : depth = f.depth := by
      by_contra other
      exact calm ⟨hit, f, here, other⟩
    simp only [Figure.setDepth, if_pos same, had]
  | setSpecies k species =>
    apply owns_change here had
    intro hit
    have same : species.system = f.species.system := by
      by_contra other
      exact calm ⟨hit, f, here, other⟩
    simp only [Figure.setSpecies, if_pos same, had]
  | restyle k origin heading step colour =>
    apply owns_change here had
    intro _
    exact had
  | ask k request =>
    simp only [perform]
    cases asked : g.ask k request with
    | none => exact owns
    | some answer =>
      obtain ⟨d, h⟩ := answer
      by_cases hit : k = i
      · subst k
        obtain ⟨h', given⟩ := ask_of_owns owns request
        rw [given] at asked
        cases asked
        exact owns_ask given
      · obtain ⟨other, t, s, -, rfl, -⟩ := ask_gives asked
        exact ⟨f, (List.getElem?_set_ne hit).trans here, had⟩
  | fetch k => exact ⟨f, here, had⟩
  | clearStore => exact ⟨f, here, had⟩

theorem Line.owns {history : List Event} {j : Nat} (line : Line g history i j)
    (owns : g.Owns i e) : (g.run history).Owns j e := by
  induction line with
  | here => exact owns
  | same calm rest ih => exact ih (owns_perform owns calm)
  | copied rest ih =>
    apply ih
    obtain ⟨f, here, had⟩ := owns
    refine ⟨f, ?_, had⟩
    simp [perform, here]

/-- What an event says of figures whose expansions are left out. -/
def describe (figures : List Figure) : Event → List Figure
  | .plant species origin heading step colour depth =>
    figures ++ [⟨species, origin, heading, step, colour, depth, none⟩]
  | .copy i => figures ++ figures[i]?.toList
  | .setDepth i depth => figures.modify i ({ · with depth })
  | .setSpecies i species => figures.modify i ({ · with species })
  | .restyle i origin heading step colour =>
    figures.modify i ({ · with origin, heading, step, colour })
  | .ask _ _ | .fetch _ | .clearStore => figures

theorem unexpanded_change {change said : Figure → Figure}
    (agree : ∀ f, (change f).unexpanded = said f.unexpanded) (g : Garden) (i : Nat) :
    (g.change i change).figures.map Figure.unexpanded =
      (g.figures.map Figure.unexpanded).modify i said := by
  apply List.ext_getElem?
  intro j
  simp only [Garden.change, List.getElem?_map, List.getElem?_modify, Option.map_eq_map,
    Option.map_map]
  congr 1
  funext f
  simp only [Function.comp_apply]
  split
  · exact agree f
  · rfl

theorem unexpanded_perform (g : Garden) (event : Event) :
    (g.perform event).figures.map Figure.unexpanded =
      describe (g.figures.map Figure.unexpanded) event := by
  cases event with
  | plant species origin heading step colour depth => simp [perform, describe, Figure.unexpanded]
  | copy i =>
    cases here : g.figures[i]? <;> simp [perform, describe, here]
  | setDepth i depth => exact unexpanded_change (Figure.unexpanded_setDepth depth) g i
  | setSpecies i species => exact unexpanded_change (Figure.unexpanded_setSpecies species) g i
  | restyle i origin heading step colour =>
    apply unexpanded_change
    intro f
    rfl
  | ask i request =>
    simp only [perform, describe]
    cases asked : g.ask i request with
    | none => rfl
    | some answer =>
      obtain ⟨e, h⟩ := answer
      obtain ⟨f, t, s, here, rfl, -⟩ := ask_gives asked
      obtain ⟨inside, rfl⟩ := List.getElem?_eq_some_iff.mp here
      have bound : i < (g.figures.map Figure.unexpanded).length := by rwa [List.length_map]
      -- An answer changes nothing of a figure but its expansion.
      have same : { g.figures[i] with expansion? := some e }.unexpanded =
          (g.figures.map Figure.unexpanded)[i] := by
        rw [List.getElem_map]
        rfl
      simp only [Option.map_some, Option.getD_some, List.map_set, same, List.set_getElem_self]
  | fetch k | clearStore => rfl

/-- Figures are what was said of them last. -/
theorem unexpanded_run (g : Garden) (history : List Event) :
    (g.run history).figures.map Figure.unexpanded =
      history.foldl describe (g.figures.map Figure.unexpanded) := by
  induction history generalizing g with
  | nil => rfl
  | cons event history ih => exact (ih (g.perform event)).trans (by rw [unexpanded_perform]; rfl)

/-- Whatever happens in a garden, its figures are what was said of them, and never have or give an
expansion that is stale. They give the same one over and over, and so do their copies, until another
depth or another system renews them. -/
theorem expansions_never_stale (rewriter : Rewriter) (history : List Event) :
    let g := (bare rewriter).run history
    g.figures.map Figure.unexpanded = history.foldl describe [] ∧
    (∀ (i : Nat) f e, g.figures[i]? = some f → f.expansion? = some e →
      e.word = Rewriter.alone.expand f.species.system f.depth) ∧
    (∀ (i : Nat) f request, g.figures[i]? = some f →
      ∃ e h, g.ask i request = some (e, h) ∧
        e.word = Rewriter.alone.expand f.species.system f.depth ∧ h.Owns i e ∧
        (f.expansion? = none → request = .own ∨ g.store.find? f.key = none →
          ∀ k d, g.Keeps k d → d.tag ≠ e.tag)) ∧
    ∀ (i j : Nat) request request' e h later, g.ask i request = some (e, h) →
      Line h later i j → ∃ h', (h.run later).ask j request' = some (e, h') := by
  intro g
  have sound : g.Sound := (sound_bare rewriter).run history
  refine ⟨unexpanded_run (bare rewriter) history, ?_, ?_, ?_⟩
  · intro i f e here had
    exact sound.word f.key e (.figure here had)
  · intro i f request here
    exact sound.ask here request
  · intro i j request request' e h later asked line
    exact ask_of_owns (line.owns (owns_ask asked)) request'

/-- A copy that is renamed and turns otherwise gives what its original gave, though the store was
cleared and the original went on to another depth. -/
theorem expansions_never_stale_copied :
    let curve : Figure := ⟨.koch, ⟨0, 0⟩, 0, 1, ⟨1, 0, 0⟩, 2, none⟩
    let planted : Event := .plant .koch ⟨0, 0⟩ 0 1 ⟨1, 0, 0⟩ 2
    let g := (bare .alone).run [planted]
    let turned : Species := { Species.koch with name := "turned", turn := thirdTurn }
    let later : List Event := [.clearStore, .copy 0, .setDepth 0 3, .setSpecies 1 turned]
    ∃ f e h, g.figures[0]? = some f ∧ g.ask 0 .shared = some (e, h) ∧ Line h later 0 1 ∧
      e.word = Rewriter.alone.expand f.species.system f.depth ∧
      (∃ h', (h.run later).ask 1 .own = some (e, h')) ∧
      (h.run later).figures.map Figure.unexpanded =
        [{ curve with depth := 3 }, { curve with species := turned }] := by
  intro curve planted g turned later
  obtain ⟨-, -, gives, keeps⟩ := expansions_never_stale .alone [planted]
  obtain ⟨e, h, asked, word, -, -⟩ := gives 0 _ .shared rfl
  have line : Line h later 0 1 := by
    have given : g.ask 0 .shared = some (_, _) := rfl
    cases given.symm.trans asked
    refine .same id (.copied (.same ?_ (.same ?_ .here)))
    · rintro ⟨other, -⟩
      cases other
    · rintro ⟨-, f, here, other⟩
      cases here
      exact other rfl
  have ended : (bare .alone).run (planted :: .ask 0 .shared :: later) = h.run later :=
    congrArg (fun answer => ((answer.map Prod.snd).getD g).run later) asked
  obtain ⟨told, -, -, -⟩ := expansions_never_stale .alone (planted :: .ask 0 .shared :: later)
  rw [ended] at told
  exact ⟨_, e, h, rfl, asked, line, word, keeps 0 1 .shared .own e h later asked line, told⟩

end Garden
end LSystem
