import LSystem.Document
import Mathlib.Tactic.MkIffOfInductiveProp
import Mathlib.Tactic.Simproc.ExistsAndEq

namespace LSystem

namespace Json

variable {α : Type} {names : List String} {name : String} {members others : List (String × Json)}
  {decode : Json → Option α} {default x : α}

theorem count_eq_count_map (name : String) (members : List (String × Json)) :
    count name members = (members.map Prod.fst).count name := by
  rw [count, List.count, List.countP_map]
  rfl

/-- What an object says of one field: its name occurs once at most, its value is decoded, and the
default stands in where it does not occur. -/
structure Gives (members : List (String × Json)) (name : String) (decode : Json → Option α)
    (default x : α) : Prop where
  once : count name members ≤ 1
  given : ∀ v, (name, v) ∈ members → decode v = some x
  absent : (∀ v, (name, v) ∉ members) → x = default

/-- A name occurs once at most, and if it does its value can be decoded. -/
structure Accepts (members : List (String × Json)) (name : String) (decode : Json → Option α) :
    Prop where
  once : count name members ≤ 1
  known : ∀ v, (name, v) ∈ members → ∃ x, decode v = some x

/-- Where a name occurs once at most, no member hides another. -/
theorem find?_eq_some_iff (once : count name members ≤ 1) {v : Json} :
    find? name members = some v ↔ (name, v) ∈ members := by
  rw [count_eq_count_map] at once
  exact Entries.lookup_eq_some_iff_mem once

theorem find?_eq_none_iff : find? name members = none ↔ ∀ v, (name, v) ∉ members := by
  rw [find?, Entries.lookup_eq_none]
  simp

theorem gives_iff : Gives members name decode default x ↔
    count name members ≤ 1 ∧ orElse decode default (find? name members) = some x := by
  constructor
  · rintro ⟨once, given, absent⟩
    refine ⟨once, ?_⟩
    cases found : find? name members with
    | none => rw [absent (find?_eq_none_iff.mp found)]; rfl
    | some v => exact given v (Entries.mem_of_lookup found)
  · rintro ⟨once, read⟩
    refine ⟨once, ?_, ?_⟩
    · intro v here
      rwa [(find?_eq_some_iff once).mpr here] at read
    · intro absent
      rw [find?_eq_none_iff.mpr absent] at read
      exact (Option.some.inj read).symm

theorem exists_gives_iff : (∃ x, Gives members name decode default x) ↔
    Accepts members name decode := by
  constructor
  · rintro ⟨x, once, given, -⟩
    exact ⟨once, fun v here => ⟨x, given v here⟩⟩
  · rintro ⟨once, known⟩
    cases found : find? name members with
    | none => exact ⟨default, gives_iff.mpr ⟨once, by rw [found]; rfl⟩⟩
    | some v =>
      obtain ⟨x, read⟩ := known v (Entries.mem_of_lookup found)
      exact ⟨x, gives_iff.mpr ⟨once, by rw [found]; exact read⟩⟩

section Replace

variable {key : String} {v w : Json} (before after : List (String × Json))
  (alike : key = name → decode v = decode w)

include alike

theorem orElse_find?_replace (default : α) :
    orElse decode default (find? name (before ++ (key, v) :: after)) =
      orElse decode default (find? name (before ++ (key, w) :: after)) := by
  rw [find?, find?, List.lookup_append, List.lookup_append]
  cases before.lookup name with
  | some u => rfl
  | none =>
    by_cases same : key = name
    · subst same
      simpa [orElse] using alike rfl
    · simp [List.lookup_cons, beq_false_of_ne (Ne.symm same)]

/-- The value of a member can be replaced by another one that is decoded alike. -/
theorem gives_replace : Gives (before ++ (key, v) :: after) name decode default x ↔
    Gives (before ++ (key, w) :: after) name decode default x := by
  rw [gives_iff, gives_iff, orElse_find?_replace before after alike, count_eq_count_map,
    count_eq_count_map]
  simp only [List.map_append, List.map_cons]

end Replace

theorem fields_object (names : List String) (members : List (String × Json)) :
    fields names (.object members) =
      if ∀ name ∈ names, count name members ≤ 1 then some (names.map (find? · members))
      else none := by
  simp [fields]

/-- The members with names that a record knows are the same in any order; all others are free. -/
def SameKnown (names : List String) (members others : List (String × Json)) : Prop :=
  (members.filter (·.1 ∈ names)).Perm (others.filter (·.1 ∈ names))

namespace SameKnown

theorem of_perm (perm : members.Perm others) : SameKnown names members others := perm.filter _

theorem of_unknown (unknown : name ∉ names) (v : Json) (before after : List (String × Json)) :
    SameKnown names (before ++ (name, v) :: after) (before ++ after) := by
  have same : (before ++ (name, v) :: after).filter (·.1 ∈ names) =
      (before ++ after).filter (·.1 ∈ names) := by
    simp [unknown]
  exact List.Perm.of_eq same

variable (h : SameKnown names members others)

include h

theorem mem_iff (known : name ∈ names) {v : Json} : (name, v) ∈ members ↔ (name, v) ∈ others := by
  have kept : (name, v) ∈ members.filter (·.1 ∈ names) ↔ (name, v) ∈ others.filter (·.1 ∈ names) :=
    List.Perm.mem_iff h
  simpa [known] using kept

theorem count_eq (known : name ∈ names) : count name members = count name others := by
  have kept (members : List (String × Json)) :
      count name (members.filter (·.1 ∈ names)) = count name members := by
    rw [count, count, List.countP_filter]
    refine List.countP_congr (fun m _ => ?_)
    by_cases same : m.1 = name <;> simp [same, known]
  rw [← kept members, ← kept others]
  exact List.Perm.countP_eq _ h

theorem fields_eq : fields names (.object members) = fields names (.object others) := by
  -- Both objects are refused or none is; what they give a name is compared as members, since
  -- `find?` itself goes by the order.
  rw [fields_object, fields_object]
  have counts : (∀ name ∈ names, count name members ≤ 1) ↔
      ∀ name ∈ names, count name others ≤ 1 :=
    forall₂_congr (fun name known => by rw [h.count_eq known])
  by_cases once : ∀ name ∈ names, count name members ≤ 1
  · rw [if_pos once, if_pos (counts.mp once)]
    refine congrArg some (List.map_congr_left (fun name known => Option.ext (fun v => ?_)))
    rw [find?_eq_some_iff (once name known), find?_eq_some_iff (counts.mp once name known),
      h.mem_iff known]
  · rw [if_neg once, if_neg (fun all => once (counts.mpr all))]

end SameKnown

theorem map_fst_zip_sublist (names : List String) (items : List Json) :
    ((names.zip items).map Prod.fst).Sublist names := by
  induction names generalizing items with
  | nil => simp
  | cons name names ih =>
    cases items with
    | nil => simp
    | cons v items => exact (ih items).cons_cons name

/-- Fewer items than names are given to the first names, and the others are given nothing. -/
theorem map_find?_zip (distinct : names.Nodup) {items : List Json}
    (fits : items.length ≤ names.length) : names.map (find? · (names.zip items)) =
      items.map some ++ List.replicate (names.length - items.length) none := by
  induction names generalizing items with
  | nil =>
    rw [List.length_eq_zero_iff.mp (Nat.le_zero.mp fits)]
    rfl
  | cons name names ih =>
    cases items with
    | nil => simp [find?, List.map_const', List.replicate_succ]
    | cons v items =>
      obtain ⟨new, distinct⟩ := List.nodup_cons.mp distinct
      have others : names.map (find? · ((name :: names).zip (v :: items))) =
          names.map (find? · (names.zip items)) := by
        refine List.map_congr_left (fun other known => ?_)
        have different : other ≠ name := fun same => new (same ▸ known)
        rw [find?, List.zip_cons_cons, List.lookup_cons, beq_false_of_ne different, find?]
      rw [List.map_cons, others, ih distinct (Nat.le_of_succ_le_succ fits), List.zip_cons_cons]
      simp [find?]

theorem fields_array (distinct : names.Nodup) {items : List Json}
    (fits : items.length ≤ names.length) :
    fields names (.array items) = fields names (.object (names.zip items)) := by
  have once : ∀ name ∈ names, count name (names.zip items) ≤ 1 := by
    intro name _
    rw [count_eq_count_map]
    refine List.nodup_iff_count.mp ?_ name
    exact (map_fst_zip_sublist names items).nodup distinct
  rw [fields_object, if_pos once, map_find?_zip distinct fits, fields, if_pos fits]

/-- A record whose fields have names and an order. It is read from members in any order, whatever
members of other names there are, or from its first fields without names. -/
structure Reads (names : List String) (decode : Json → Option α) : Prop where
  reordered : ∀ members others, members.Perm others →
    decode (.object members) = decode (.object others)
  unknown : ∀ name v before after, name ∉ names →
    decode (.object (before ++ (name, v) :: after)) = decode (.object (before ++ after))
  items : ∀ items, items.length ≤ names.length →
    decode (.array items) = decode (.object (names.zip items))
  tooMany : ∀ items, names.length < items.length → decode (.array items) = none

/-- A record is read so if the fields alone decide what it is. -/
theorem reads_of_fields (distinct : names.Nodup)
    (decided : ∀ v w, fields names v = fields names w → decode v = decode w)
    (refused : ∀ v, fields names v = none → decode v = none) : Reads names decode := by
  refine ⟨?_, ?_, ?_, ?_⟩
  · intro members others perm
    exact decided _ _ (SameKnown.of_perm perm).fields_eq
  · intro name v before after unknown
    exact decided _ _ (SameKnown.of_unknown unknown v before after).fields_eq
  · intro items fits
    exact decided _ _ (fields_array distinct fits)
  · intro items long
    exact refused _ (if_neg (Nat.not_le.mpr long))

end Json

namespace Document

open Json

def walkFields : List String := ["max_stack_depth", "jitter"]

def settingsFields : List String := ["thread_count", "background", "jitter_seed", "interpreter"]

def seed (v : Json) : Option UInt64 := (natural v).map UInt64.ofNat

theorem reads_walkSettings : Reads walkFields walkSettings := by
  refine reads_of_fields (by decide) ?_ ?_
  · intro v w same
    rw [walkSettings, walkSettings, ← walkFields, same]
  · intro v nothing
    rw [walkSettings, ← walkFields, nothing]

theorem reads_settings : Reads settingsFields settings := by
  refine reads_of_fields (by decide) ?_ ?_
  · intro v w same
    rw [settings, settings, ← settingsFields, same]
  · intro v nothing
    rw [settings, ← settingsFields, nothing]

/-- The settings of a walk that the members of an object give. -/
@[mk_iff]
structure WalkGiven (members : List (String × Json)) (w : WalkSettings) : Prop where
  maxSaved : Gives members "max_stack_depth" natural WalkSettings.usual.maxSaved w.maxSaved
  jitter : Gives members "jitter" boolean WalkSettings.usual.jitter w.jitter

structure WalkAccepted (members : List (String × Json)) : Prop where
  maxSaved : Accepts members "max_stack_depth" natural
  jitter : Accepts members "jitter" boolean

/-- The settings that the members of an object give. -/
@[mk_iff]
structure SettingsGiven (members : List (String × Json)) (s : Settings) : Prop where
  workers : Gives members "thread_count" natural Settings.usual.workers s.workers
  background : Gives members "background" rgba Settings.usual.background s.background
  seed : Gives members "jitter_seed" seed Settings.usual.seed s.seed
  walk : Gives members "interpreter" walkSettings Settings.usual.walk s.walk

structure SettingsAccepted (members : List (String × Json)) : Prop where
  workers : Accepts members "thread_count" natural
  background : Accepts members "background" rgba
  seed : Accepts members "jitter_seed" seed
  walk : Accepts members "interpreter" walkSettings

variable {members inner : List (String × Json)} {w : WalkSettings} {s : Settings}

theorem walkSettings_eq_some_iff :
    walkSettings (.object members) = some w ↔ WalkGiven members w := by
  obtain ⟨maxSaved, jitter⟩ := w
  have each : (∀ name ∈ walkFields, count name members ≤ 1) ↔
      count "max_stack_depth" members ≤ 1 ∧ count "jitter" members ≤ 1 := by
    simp [walkFields]
  rw [walkGiven_iff, gives_iff, gives_iff, walkSettings, ← walkFields, fields_object]
  by_cases once : ∀ name ∈ walkFields, count name members ≤ 1
  · obtain ⟨saved, jittered⟩ := each.mp once
    rw [if_pos once]
    simp [walkFields, Option.bind_eq_some_iff, saved, jittered]
  · rw [if_neg once]
    refine iff_of_false nofun ?_
    rintro ⟨⟨saved, -⟩, jittered, -⟩
    exact once (each.mpr ⟨saved, jittered⟩)

theorem exists_walkSettings_iff :
    (∃ w, walkSettings (.object members) = some w) ↔ WalkAccepted members := by
  simp only [walkSettings_eq_some_iff]
  constructor
  · rintro ⟨w, given⟩
    exact ⟨exists_gives_iff.mp ⟨_, given.maxSaved⟩, exists_gives_iff.mp ⟨_, given.jitter⟩⟩
  · intro accepted
    obtain ⟨maxSaved, saved⟩ := exists_gives_iff.mpr accepted.maxSaved
    obtain ⟨jitter, jittered⟩ := exists_gives_iff.mpr accepted.jitter
    exact ⟨⟨maxSaved, jitter⟩, saved, jittered⟩

theorem settings_eq_some_iff : settings (.object members) = some s ↔ SettingsGiven members s := by
  obtain ⟨workers, background, given, walk⟩ := s
  have reader : (fun v => (natural v).map UInt64.ofNat) = seed := rfl
  have each : (∀ name ∈ settingsFields, count name members ≤ 1) ↔
      count "thread_count" members ≤ 1 ∧ count "background" members ≤ 1 ∧
        count "jitter_seed" members ≤ 1 ∧ count "interpreter" members ≤ 1 := by
    simp [settingsFields]
  rw [settingsGiven_iff, gives_iff, gives_iff, gives_iff, gives_iff, settings, ← settingsFields,
    fields_object]
  by_cases once : ∀ name ∈ settingsFields, count name members ≤ 1
  · obtain ⟨hired, filled, seeded, walked⟩ := each.mp once
    rw [if_pos once]
    simp [settingsFields, Option.bind_eq_some_iff, reader, hired, filled, seeded, walked]
  · rw [if_neg once]
    refine iff_of_false nofun ?_
    rintro ⟨⟨hired, -⟩, ⟨filled, -⟩, ⟨seeded, -⟩, walked, -⟩
    exact once (each.mpr ⟨hired, filled, seeded, walked⟩)

theorem exists_settings_iff :
    (∃ s, settings (.object members) = some s) ↔ SettingsAccepted members := by
  simp only [settings_eq_some_iff]
  constructor
  · rintro ⟨s, given⟩
    exact ⟨exists_gives_iff.mp ⟨_, given.workers⟩, exists_gives_iff.mp ⟨_, given.background⟩,
      exists_gives_iff.mp ⟨_, given.seed⟩, exists_gives_iff.mp ⟨_, given.walk⟩⟩
  · intro accepted
    obtain ⟨workers, hired⟩ := exists_gives_iff.mpr accepted.workers
    obtain ⟨background, filled⟩ := exists_gives_iff.mpr accepted.background
    obtain ⟨start, seeded⟩ := exists_gives_iff.mpr accepted.seed
    obtain ⟨walk, walked⟩ := exists_gives_iff.mpr accepted.walk
    exact ⟨⟨workers, background, start, walk⟩, hired, filled, seeded, walked⟩

/-- What an inner object leaves out has its default as well: it is not the whole walk that is taken
from the usual settings. -/
theorem walkGiven_of_settings (inside : ("interpreter", .object inner) ∈ members)
    (read : settings (.object members) = some s) : WalkGiven inner s.walk :=
  walkSettings_eq_some_iff.mp ((settings_eq_some_iff.mp read).walk.given _ inside)

theorem settings_replace_walk {v v' : Json} (alike : walkSettings v = walkSettings v')
    (before after : List (String × Json)) :
    settings (.object (before ++ ("interpreter", v) :: after)) =
      settings (.object (before ++ ("interpreter", v') :: after)) := by
  refine Option.ext (fun s => ?_)
  rw [settings_eq_some_iff, settings_eq_some_iff, settingsGiven_iff, settingsGiven_iff]
  exact and_congr (gives_replace before after (by simp)) (and_congr
    (gives_replace before after (by simp)) (and_congr
      (gives_replace before after (by simp)) (gives_replace before after (fun _ => alike))))

/-- Settings are read field by field, and so are those of a walk, inside of them or alone. An object
is read if and only if no field occurs twice and every field that occurs has a value of its kind;
each field is then what the object says of it, and the default if it says nothing. Neither the order
of the members nor members of other names make a difference. An array says what the object says that
gives its items to the first fields, and it is refused if it has more items than there are fields. -/
theorem settings_field_by_field :
    (∀ members w, walkSettings (.object members) = some w ↔ WalkGiven members w) ∧
    (∀ members, (∃ w, walkSettings (.object members) = some w) ↔ WalkAccepted members) ∧
    Reads walkFields walkSettings ∧
    (∀ members s, settings (.object members) = some s ↔ SettingsGiven members s) ∧
    (∀ members, (∃ s, settings (.object members) = some s) ↔ SettingsAccepted members) ∧
    Reads settingsFields settings ∧
    (∀ members inner s, ("interpreter", .object inner) ∈ members →
      settings (.object members) = some s → WalkGiven inner s.walk) ∧
    ∀ before after v v', walkSettings v = walkSettings v' →
      settings (.object (before ++ ("interpreter", v) :: after)) =
        settings (.object (before ++ ("interpreter", v') :: after)) := by
  refine ⟨fun _ _ => walkSettings_eq_some_iff, fun _ => exists_walkSettings_iff, reads_walkSettings,
    fun _ _ => settings_eq_some_iff, fun _ => exists_settings_iff, reads_settings, ?_, ?_⟩
  · intro members inner s inside read
    exact walkGiven_of_settings inside read
  · intro before after v v' alike
    exact settings_replace_walk alike before after

/-- Two workers and a walk that is to be jittered, with a field that is not known in between: the
walk keeps the usual height, and it could be given without names. -/
theorem settings_field_by_field_partial :
    let two : Json := .number ⟨false, [2], [], false, 0⟩
    let height : Json := .number ⟨false, [4, 0, 9, 6], [], false, 0⟩
    let walk : Json := .object [("jitter", .bool true)]
    let read : Option Settings := some { Settings.usual with workers := 2, walk := ⟨4096, true⟩ }
    settings (.object [("interpreter", walk), ("shade", .null), ("thread_count", two)]) = read ∧
      settings (.object [("thread_count", two), ("interpreter", .array [height, .bool true])]) =
        read ∧
      WalkGiven [("jitter", .bool true)] ⟨4096, true⟩ ∧
      settings (.array [two]) = settings (.object [("thread_count", two)]) ∧
      settings (.array [two, two, two, two, two]) = none ∧
      ¬ SettingsAccepted [("jitter_seed", two), ("jitter_seed", two)] := by
  intro two height walk read
  obtain ⟨-, -, readsWalk, -, accepted, reads, inner, replaced⟩ := settings_field_by_field
  have known : settings (.object [("thread_count", two), ("interpreter", walk)]) = read := by
    decide +kernel
  have turned : settings (.object [("interpreter", walk), ("thread_count", two)]) = read :=
    (reads.reordered _ _ (.swap ..)).trans known
  have alike : walkSettings walk = walkSettings (.array [height, .bool true]) := by
    refine Eq.trans ?_ (readsWalk.items [height, .bool true] (by decide)).symm
    decide +kernel
  refine ⟨?_, ?_, ?_, reads.items [two] (by decide), reads.tooMany _ (by decide), ?_⟩
  · exact (reads.unknown "shade" .null [("interpreter", walk)] [("thread_count", two)]
      (by decide)).trans turned
  · exact (replaced [("thread_count", two)] [] walk _ alike).symm.trans known
  · exact inner _ _ _ (List.mem_cons_of_mem _ List.mem_cons_self) known
  · rw [← accepted]
    rintro ⟨s, twice⟩
    have refused : settings (.object [("jitter_seed", two), ("jitter_seed", two)]) = none := by
      decide +kernel
    cases refused.symm.trans twice

end Document
end LSystem
