import LSystem.Expansion.Commons
import LSystem.Proofs.Freshness

namespace LSystem

namespace Store

/-- What a publication gives back is what the store holds from then on. -/
theorem find?_publish_self (s : Store) (k : Key) (fresh : Expansion) :
    (s.publish k fresh).2.find? k = some (s.publish k fresh).1 := by
  unfold publish
  split
  · rename_i held found
    exact found
  · simp [find?]

theorem find?_publish_of_held {s : Store} {j : Key} {e : Expansion} (held : s.find? j = some e)
    (k : Key) (fresh : Expansion) : (s.publish k fresh).2.find? j = some e := by
  rw [find?_publish]
  split
  · rename_i same
    rw [← same, held, Option.getD_some]
  · exact held

/-- Nothing comes into the store by a publication but what is published. -/
theorem find?_publish_cases {s : Store} {k j : Key} {fresh e : Expansion}
    (found : (s.publish k fresh).2.find? j = some e) :
    s.find? j = some e ∨ (j = k ∧ e = fresh) := by
  rw [find?_publish] at found
  split at found
  · rename_i same
    cases held : s.find? k with
    | some d =>
      rw [held] at found
      cases found
      exact Or.inl (same ▸ held)
    | none =>
      rw [held] at found
      cases found
      exact Or.inr ⟨same, rfl⟩
  · exact Or.inl found

end Store

namespace Commons

variable {c d : Commons} {event : Event} {events later : List Event} {r : Reply} {k : Key}
  {e : Expansion}

/-- What is held, and what callers have derived but not published, is what its key stands for. -/
structure Sound (c : Commons) : Prop where
  held : ∀ k e, c.store.find? k = some e → e.word = k.word
  derived : ∀ caller species depth fresh, c.stage caller = .derived species depth fresh →
    fresh.word = (species.key depth).word

theorem sound_opened (rewriter : Rewriter) (supply : Supply) : (opened rewriter supply).Sound := by
  refine ⟨?_, ?_⟩
  · intro k e held
    cases held
  · intro caller species depth fresh derived
    cases derived

theorem stage_move_self (c : Commons) (caller : Nat) (s : Stage) :
    (c.move caller s).stage caller = s := if_pos rfl

theorem stage_move {caller i : Nat} {s t : Stage} (h : (c.move caller s).stage i = t) :
    (i = caller ∧ s = t) ∨ c.stage i = t := by
  simp only [move] at h
  split at h
  · rename_i here
    exact Or.inl ⟨here, h⟩
  · exact Or.inr h

theorem Sound.step (sound : c.Sound) (step : c.Step event d) : d.Sound := by
  cases step with
  | hit free found => exact sound
  | miss free missing =>
    refine ⟨sound.held, ?_⟩
    intro i species depth fresh derived
    rcases stage_move derived with ⟨-, other⟩ | old
    · cases other
    · exact sound.derived i species depth fresh old
  | derive missed minted =>
    refine ⟨sound.held, ?_⟩
    intro i species depth fresh derived
    rcases stage_move derived with ⟨-, same⟩ | old
    · cases same
      cases minted
      exact c.store.rewriter.expand_eq_word ⟨_, _⟩
    · exact sound.derived i species depth fresh old
  | @publish caller species depth fresh derived =>
    refine ⟨?_, ?_⟩
    · intro k e found
      rcases Store.find?_publish_cases found with old | ⟨rfl, rfl⟩
      · exact sound.held k e old
      · exact sound.derived caller species depth e derived
    · intro i species depth fresh derived
      rcases stage_move derived with ⟨-, other⟩ | old
      · cases other
      · exact sound.derived i species depth fresh old
  | clear =>
    refine ⟨?_, sound.derived⟩
    intro k e held
    cases held

theorem Sound.run (sound : c.Sound) (run : c.Run events d) : d.Sound := by
  induction run with
  | nil => exact sound
  | cons step rest ih => exact ih (sound.step step)

/-- A reply is what the store holds for its key when the call ends. -/
theorem Step.find?_reply (step : c.Step event d) (replied : event.reply? = some r) :
    d.store.find? r.key = some r.expansion := by
  cases step with
  | hit free found =>
    cases replied
    exact found
  | miss free missing => cases replied
  | derive missed minted => cases replied
  | @publish caller species depth fresh derived =>
    cases replied
    exact c.store.find?_publish_self (species.key depth) fresh
  | clear => cases replied

/-- What is held is not replaced. -/
theorem Step.find?_of_held (step : c.Step event d) (calm : event ≠ .clear)
    (held : c.store.find? k = some e) : d.store.find? k = some e := by
  cases step with
  | hit free found => exact held
  | miss free missing => exact held
  | derive missed minted => exact held
  | @publish caller species depth fresh derived =>
    exact Store.find?_publish_of_held held (species.key depth) fresh
  | clear => exact absurd rfl calm

/-- A key comes into the store with a publication for it, and the caller gets what it published. -/
theorem Step.entered (step : c.Step event d) (missing : c.store.find? k = none)
    (held : d.store.find? k = some e) : ∃ r, event = .publish r ∧ r.key = k ∧ r.expansion = e := by
  cases step with
  | hit free found =>
    rw [missing] at held
    cases held
  | miss free absent =>
    simp only [move, missing] at held
    cases held
  | derive missed minted =>
    simp only [move, missing] at held
    cases held
  | @publish caller species depth fresh derived =>
    rcases Store.find?_publish_cases held with old | ⟨rfl, -⟩
    · rw [missing] at old
      cases old
    · have given := c.store.find?_publish_self (species.key depth) fresh
      exact ⟨_, rfl, rfl, Option.some.inj (given.symm.trans held)⟩
  | clear => cases held

theorem replies_cons (event : Event) (later : List Event) :
    replies (event :: later) = event.reply?.toList ++ replies later := by
  rw [replies, List.filterMap_cons]
  cases event.reply? <;> rfl

theorem Sound.word_reply (sound : c.Sound) (run : c.Run events d) (replied : r ∈ replies events) :
    r.expansion.word = r.key.word := by
  induction run with
  | nil => cases replied
  | cons step rest ih =>
    have next := sound.step step
    rw [replies_cons, List.mem_append, Option.mem_toList] at replied
    rcases replied with now | later
    · exact next.held _ _ (step.find?_reply now)
    · exact ih next later

/-- While a key is held, what is held for it stays the same, and whoever asks for it gets that. -/
theorem Run.held (run : c.Run later d) (calm : .clear ∉ later) (held : c.store.find? k = some e) :
    d.store.find? k = some e ∧ ∀ r ∈ replies later, r.key = k → r.expansion = e := by
  induction run with
  | nil => exact ⟨held, fun r replied => by cases replied⟩
  | @cons c m d event later step rest ih =>
    rw [List.mem_cons, not_or] at calm
    have kept := step.find?_of_held (Ne.symm calm.1) held
    obtain ⟨still, all⟩ := ih calm.2 kept
    refine ⟨still, ?_⟩
    intro r replied same
    rw [replies_cons, List.mem_append, Option.mem_toList] at replied
    rcases replied with now | further
    · have given := step.find?_reply now
      rw [same, kept] at given
      exact (Option.some.inj given).symm
    · exact all r further same

/-- A call that nobody comes between does what it does in a session. -/
theorem run_call {caller : Nat} (free : c.stage caller = .idle) (species : Species) (depth : Nat) :
    let given := Session.expand ⟨c.store, c.supply⟩ species depth
    let r : Reply := ⟨caller, species, depth, given.1⟩
    ∃ d, given.2 = ⟨d.store, d.supply⟩ ∧ (c.Run [.hit r] d ∨
      c.Run [.miss caller species depth, .derive caller, .publish r] d) := by
  intro given r
  cases found : c.store.find? (species.key depth) with
  | some held =>
    have hit : given = (held, ⟨c.store, c.supply⟩) := by
      simp only [given, Session.expand, Store.expand, found]
    have replied : r = ⟨caller, species, depth, held⟩ := by simp only [r, hit]
    refine ⟨c, congrArg Prod.snd hit, Or.inl ?_⟩
    rw [replied]
    exact .cons (.hit free found) .nil
  | none =>
    let fresh := (c.supply.mint (c.store.rewriter.expand species.system depth)).1
    let published := c.store.publish (species.key depth) fresh
    have miss : given = (published.1, ⟨published.2, ⟨c.supply.next + 1⟩⟩) := by
      simp only [given, Session.expand, Store.expand, found]
      rfl
    have replied : r = ⟨caller, species, depth, published.1⟩ := by simp only [r, miss]
    let missed := c.move caller (.missed species depth)
    let derived : Commons :=
      { missed.move caller (.derived species depth fresh) with supply := ⟨c.supply.next + 1⟩ }
    refine ⟨{ derived.move caller .idle with store := published.2 }, congrArg Prod.snd miss,
      Or.inr ?_⟩
    rw [replied]
    have own : missed.stage caller = .missed species depth := stage_move_self ..
    have own' : derived.stage caller = .derived species depth fresh := stage_move_self ..
    exact .cons (.miss free found) (.cons (.derive own rfl) (.cons (.publish own') .nil))

/-- Whatever callers do at once, each gets what its species and depth derive, and the store holds
nothing else. The first publication for a key counts: until the store is cleared all who ask for
the key get it, whatever they derived themselves. -/
theorem rivals_share_first_published (rewriter : Rewriter) (supply : Supply) {before : List Event}
    {c : Commons} (ran : (opened rewriter supply).Run before c) :
    (∀ r ∈ replies before,
      r.expansion.word = Rewriter.alone.expand r.species.system r.depth) ∧
    (∀ k e, c.store.find? k = some e → e.word = Rewriter.alone.expand k.system k.depth) ∧
    (∀ event d, c.Step event d →
      (∀ r, event.reply? = some r → d.store.find? r.key = some r.expansion) ∧
      ∀ k e, c.store.find? k = none → d.store.find? k = some e →
        ∃ r, event = .publish r ∧ r.key = k ∧ r.expansion = e) ∧
    (∀ k e later d, c.store.find? k = some e → c.Run later d → .clear ∉ later →
      d.store.find? k = some e ∧ ∀ r ∈ replies later, r.key = k → r.expansion = e) ∧
    ∀ caller species depth, c.stage caller = .idle →
      let given := Session.expand ⟨c.store, c.supply⟩ species depth
      let r : Reply := ⟨caller, species, depth, given.1⟩
      ∃ d, given.2 = ⟨d.store, d.supply⟩ ∧ (c.Run [.hit r] d ∨
        c.Run [.miss caller species depth, .derive caller, .publish r] d) := by
  have start := sound_opened rewriter supply
  have sound : c.Sound := start.run ran
  refine ⟨?_, sound.held, ?_, ?_, ?_⟩
  · intro r replied
    exact start.word_reply ran replied
  · intro event d step
    exact ⟨fun r replied => step.find?_reply replied,
      fun k e missing held => step.entered missing held⟩
  · intro k e later d held run calm
    exact run.held calm held
  · intro caller species depth free
    exact run_call free species depth

/-- Three callers derive the same at once. The second to have derived is the first to publish, and
the third gets what it published; what was derived before the store is cleared and published
after it is held from then on. -/
theorem rivals_share_first_published_late :
    let word := Rewriter.alone.expand Species.koch.system 1
    let reply (caller tag : Nat) : Reply := ⟨caller, .koch, 1, ⟨tag, word⟩⟩
    let before : List Event := [.miss 0 .koch 1, .miss 1 .koch 1, .miss 2 .koch 1, .derive 0,
      .derive 1, .derive 2, .publish (reply 1 1), .publish (reply 2 1), .clear,
      .publish (reply 0 0)]
    ∃ c, (opened .alone ⟨0⟩).Run before c ∧
      (∀ r ∈ replies before, r.expansion.word = Rewriter.alone.expand r.species.system r.depth) ∧
      ∃ d, c.Run [.hit (reply 1 0)] d ∧
        d.store.find? (Species.koch.key 1) = some ⟨0, word⟩ := by
  intro word reply before
  have ran : (opened .alone ⟨0⟩).Run before _ :=
    .cons (.miss rfl rfl) (.cons (.miss rfl rfl) (.cons (.miss rfl rfl) (.cons (.derive rfl rfl)
      (.cons (.derive rfl rfl) (.cons (.derive rfl rfl) (.cons (.publish rfl)
        (.cons (.publish rfl) (.cons .clear (.cons (.publish rfl) .nil)))))))))
  obtain ⟨words, -, -, same, -⟩ := rivals_share_first_published .alone ⟨0⟩ ran
  have calm : Event.clear ∉ [Event.hit (reply 1 0)] := by simp
  refine ⟨_, ran, words, _, .cons (.hit rfl rfl) .nil, ?_⟩
  exact (same _ _ _ _ rfl (.cons (.hit rfl rfl) .nil) calm).1

end Commons
end LSystem
