import Mathlib.Data.List.Nodup
import ElmSuite.Proofs.OrderedMap
import ElmSuite.Proofs.Settings.Layers
import ElmSuite.Settings.Overrides

/-!
Overrides of settings on top of each other.  The values of settings are given again with every merge
and are accepted as they are, so a merge is an update by the values of the overrides alone.  Whether a
value is accepted is decided for its field, so two merges come to the same as one with the overrides of
both.
-/

namespace ElmSuite

namespace Overrides

theorem get?_given (overrides : Overrides) (name : Codes) :
    overrides.given.get? name = overrides.value? name :=
  OrderedMap.lookup_filterMap_map overrides.keys_nodup name

theorem given_combine (below above : Overrides) :
    (below.combine above).given = below.given.update above.given := by
  apply OrderedMap.ext
  change ((below.given.update above.given).entries.map _).filterMap givenEntry? = _
  rw [List.filterMap_map]
  exact List.filterMap_some

end Overrides

namespace Settings

variable {base current settings next : Settings} {below above values : OrderedMap Codes Given}

theorem lookup_namedEntries (values : OrderedMap Codes Given) (name : Codes) :
    (namedEntries values).lookup (.name name) = values.get? name := by
  unfold namedEntries OrderedMap.get?
  induction values.entries with
  | nil => rfl
  | cons entry rest ih =>
      rw [List.map_cons, OrderedMap.lookup_cons_eq, OrderedMap.lookup_cons_eq, ih]
      simp only [Key.name.injEq]

/-- The names that are known to no setting, as objections. -/
def unknownNames (names : List Codes) : List Objection :=
  names.filterMap fun name => keyObjection? (.name name)

theorem unknown_namedEntries (values : OrderedMap Codes Given) :
    ((namedEntries values).filterMap fun entry => keyObjection? entry.1) = unknownNames values.keys := by
  unfold namedEntries unknownNames OrderedMap.keys
  rw [List.filterMap_map, List.filterMap_map]
  rfl

/-- Whether a name holds half of a surrogate pair. -/
def hasBroken (names : List Codes) : Bool :=
  names.any fun name => (Key.name name).isBroken

theorem broken_namedEntries (values : OrderedMap Codes Given) :
    ((namedEntries values).any fun entry => entry.1.isBroken) = hasBroken values.keys := by
  unfold namedEntries hasBroken OrderedMap.keys
  rw [List.any_map, List.any_map]
  rfl

/-- The values of all settings are taken the same way. -/
structure SameFields (current : Settings) (entries : List (Key × Given)) (other : Settings)
    (others : List (Key × Given)) : Prop where
  compiler : field entries "compiler" current.compiler Given.asText =
    field others "compiler" other.compiler Given.asText
  seed : field entries "seed" ⟨current.seed, current.seed_lt⟩ takeSeed =
    field others "seed" ⟨other.seed, other.seed_lt⟩ takeSeed
  fuzz : field entries "fuzz" ⟨current.fuzz, current.fuzz_pos⟩ takeCount =
    field others "fuzz" ⟨other.fuzz, other.fuzz_pos⟩ takeCount
  workers : field entries "workers" ⟨current.workers, current.workers_pos⟩ takeCount =
    field others "workers" ⟨other.workers, other.workers_pos⟩ takeCount
  report : field entries "report" current.report Given.asText =
    field others "report" other.report Given.asText

theorem SameFields.updateFields_eq {other : Settings} {entries others : List (Key × Given)}
    (h : SameFields current entries other others)
    (hunknown : (entries.filterMap fun entry => keyObjection? entry.1) =
      others.filterMap fun entry => keyObjection? entry.1) :
    current.updateFields entries = other.updateFields others := by
  unfold updateFields
  dsimp only
  rw [h.compiler, h.seed, h.fuzz, h.workers, h.report, hunknown]

/-- Two merges that lead to the same settings, or are rejected with the same objections, maybe in
another order. -/
inductive Agree : Except Failure Settings → Except Failure Settings → Prop
  | ok (settings : Settings) : Agree (.ok settings) (.ok settings)
  | error {found others : List Objection} (h : found.Perm others) :
      Agree (.error (rejection found)) (.error (rejection others))

theorem SameFields.agree {other : Settings} {entries others : List (Key × Given)}
    (h : SameFields current entries other others)
    (hunknown : (entries.filterMap fun entry => keyObjection? entry.1).Perm
      (others.filterMap fun entry => keyObjection? entry.1)) :
    Agree ((current.updateFields entries).mapError rejection)
      ((other.updateFields others).mapError rejection) := by
  unfold updateFields
  dsimp only
  rw [h.compiler, h.seed, h.fuzz, h.workers, h.report]
  generalize (entries.filterMap fun entry => keyObjection? entry.1) = unknown,
    (others.filterMap fun entry => keyObjection? entry.1) = unknownOthers at hunknown
  cases unknown with
  | nil =>
      obtain rfl := hunknown.nil_eq
      split
      · exact .ok _
      · exact .error (.refl _)
  | cons objection unknown =>
      cases unknownOthers with
      | nil => cases hunknown.length_eq
      | cons first others =>
          split
          · contradiction
          · split
            · contradiction
            · exact .error (hunknown.append_left _)

/-! ### Updates by name -/

/-- The names and values that settings take. -/
structure Takes (current : Settings) (values : OrderedMap Codes Given) (settings : Settings) : Prop where
  whole : hasBroken values.keys = false
  known : unknownNames values.keys = []
  compiler : field (namedEntries values) "compiler" current.compiler Given.asText = .ok settings.compiler
  seed : field (namedEntries values) "seed" ⟨current.seed, current.seed_lt⟩ takeSeed =
    .ok ⟨settings.seed, settings.seed_lt⟩
  fuzz : field (namedEntries values) "fuzz" ⟨current.fuzz, current.fuzz_pos⟩ takeCount =
    .ok ⟨settings.fuzz, settings.fuzz_pos⟩
  workers : field (namedEntries values) "workers" ⟨current.workers, current.workers_pos⟩ takeCount =
    .ok ⟨settings.workers, settings.workers_pos⟩
  report : field (namedEntries values) "report" current.report Given.asText = .ok settings.report

theorem update_namedEntries (current : Settings) (values : OrderedMap Codes Given) :
    current.update (namedEntries values) =
      if hasBroken values.keys then .error [⟨"", .brokenText⟩]
      else current.updateFields (namedEntries values) := by
  rw [update, broken_namedEntries]

theorem takes_of_update (h : current.update (namedEntries values) = .ok settings) :
    Takes current values settings := by
  rw [update_namedEntries] at h
  split at h
  · cases h
  next hwhole =>
  unfold updateFields at h
  dsimp only at h
  rw [unknown_namedEntries] at h
  split at h
  · next hcompiler hseed hfuzz hworkers hreport hknown =>
    cases h
    exact ⟨Bool.eq_false_iff.2 hwhole, hknown, hcompiler, hseed, hfuzz, hworkers, hreport⟩
  · cases h

theorem keys_dump (settings : Settings) : settings.dump.keys = names.map .ofString :=
  rfl

theorem takeSeed_whole {seed : Nat} (h : seed < seedBound) : takeSeed (.whole seed) = .ok ⟨seed, h⟩ := by
  have hsign : ¬ (seed : Int) < 0 := by omega
  have hbound : (seed : Int).toNat < seedBound := h
  have hwhole : (Given.whole seed).asWhole = .ok (seed : Int) := rfl
  rw [takeSeed, hwhole, ok_bind, if_neg hsign, dif_pos hbound]
  rfl

theorem takeCount_whole {count : Nat} (h : 0 < count) : takeCount (.whole count) = .ok ⟨count, h⟩ := by
  have hcount : 0 < (count : Int) := by omega
  have hwhole : (Given.whole count).asWhole = .ok (count : Int) := rfl
  rw [takeCount, hwhole, ok_bind, dif_pos hcount]
  rfl

/-- Settings take their own values, whatever they stand in for. -/
theorem takes_dump (base settings : Settings) : Takes base settings.dump settings := by
  have hfield {α : Type} {name : String} {given : Given} {take : Given → Except Given.Complaint α}
      (old value : α) (hget : settings.dump.get? (.ofString name) = some given)
      (htake : take given = .ok value) : field (namedEntries settings.dump) name old take = .ok value := by
    rw [field, lookup_namedEntries, hget]
    dsimp only
    rw [htake]
    rfl
  exact
    { whole := by
        rw [keys_dump]
        decide +kernel
      known := by
        rw [keys_dump]
        decide +kernel
      compiler := hfield _ _ rfl rfl
      seed := hfield _ _ rfl (takeSeed_whole settings.seed_lt)
      fuzz := hfield _ _ rfl (takeCount_whole settings.fuzz_pos)
      workers := hfield _ _ rfl (takeCount_whole settings.workers_pos)
      report := hfield _ _ rfl rfl }

/-- What is taken for a field by two updates, the first of which is accepted. -/
theorem field_update {α : Type} {name : String} {old value : α} {take : Given → Except Given.Complaint α}
    (h : field (namedEntries below) name old take = .ok value) :
    field (namedEntries above) name value take = field (namedEntries (below.update above)) name old take := by
  unfold field at h ⊢
  rw [lookup_namedEntries] at h ⊢
  rw [lookup_namedEntries, OrderedMap.get?_update]
  cases above.get? (.ofString name) with
  | some given => rfl
  | none => exact h.symm

theorem hasBroken_update (h : hasBroken below.keys = false) :
    hasBroken (below.update above).keys = hasBroken above.keys := by
  rw [hasBroken, List.any_eq_false] at h
  rw [OrderedMap.keys_update, Bool.eq_iff_iff, hasBroken, hasBroken, List.any_eq_true, List.any_eq_true]
  constructor
  · rintro ⟨name, hname, hbroken⟩
    rcases List.mem_append.1 hname with hbelow | habove
    · exact absurd hbroken (h name hbelow)
    · exact ⟨name, (List.mem_filter.1 habove).1, hbroken⟩
  · rintro ⟨name, hname, hbroken⟩
    have hfresh : below.contains name = false := by
      rw [Bool.eq_false_iff, ne_eq, OrderedMap.contains_iff]
      exact fun hbelow => h name hbelow hbroken
    refine ⟨name, List.mem_append_right _ (List.mem_filter.2 ⟨hname, ?_⟩), hbroken⟩
    rw [hfresh]
    rfl

theorem unknownNames_update (h : unknownNames below.keys = []) :
    unknownNames (below.update above).keys = unknownNames above.keys := by
  have hknown : ∀ name ∈ below.keys, keyObjection? (.name name) = none := List.filterMap_eq_nil_iff.1 h
  have habove : unknownNames (above.keys.filter fun name => !below.contains name) =
      unknownNames above.keys := by
    unfold unknownNames
    rw [List.filterMap_filter]
    refine congrArg (List.filterMap · above.keys) (funext fun name => ?_)
    by_cases hname : name ∈ below.keys
    · rw [hknown name hname, ite_self]
    · have hfresh : below.contains name = false := by
        rw [Bool.eq_false_iff, ne_eq, OrderedMap.contains_iff]
        exact hname
      rw [hfresh]
      rfl
  rw [OrderedMap.keys_update, ← habove, unknownNames, List.filterMap_append]
  change unknownNames below.keys ++ _ = _
  rw [h]
  rfl

/-- An update of updated settings is an update by the values of both. -/
theorem Takes.update_update (h : Takes current below settings) (above : OrderedMap Codes Given) :
    settings.update (namedEntries above) = current.update (namedEntries (below.update above)) := by
  have hfields : SameFields settings (namedEntries above) current (namedEntries (below.update above)) :=
    { compiler := field_update h.compiler
      seed := field_update h.seed
      fuzz := field_update h.fuzz
      workers := field_update h.workers
      report := field_update h.report }
  have hunknown : ((namedEntries above).filterMap fun entry => keyObjection? entry.1) =
      (namedEntries (below.update above)).filterMap fun entry => keyObjection? entry.1 := by
    rw [unknown_namedEntries, unknown_namedEntries, unknownNames_update h.known]
  rw [update_namedEntries, update_namedEntries, hasBroken_update h.whole, hfields.updateFields_eq hunknown]

theorem agree_of_same_values (current : Settings) {others : OrderedMap Codes Given}
    (h : ∀ name, values.get? name = others.get? name) :
    Agree ((current.update (namedEntries values)).mapError rejection)
      ((current.update (namedEntries others)).mapError rejection) := by
  have hkeys : values.keys.Perm others.keys := (OrderedMap.perm_entries h).map Prod.fst
  have hfield {α : Type} (name : String) (old : α) (take : Given → Except Given.Complaint α) :
      field (namedEntries values) name old take = field (namedEntries others) name old take := by
    rw [field, field, lookup_namedEntries, lookup_namedEntries, h]
  have hbroken : hasBroken values.keys = hasBroken others.keys := hkeys.any_eq
  rw [update_namedEntries, update_namedEntries, hbroken]
  split
  · exact .error (.refl _)
  · refine SameFields.agree ⟨hfield _ _ _, hfield _ _ _, hfield _ _ _, hfield _ _ _, hfield _ _ _⟩ ?_
    rw [unknown_namedEntries, unknown_namedEntries]
    exact hkeys.filterMap _

/-! ### Merges -/

/-- A merge is an update by the values of the overrides. -/
theorem merged_eq (current : Settings) (overrides : Overrides) :
    current.merged overrides = (current.update (namedEntries overrides.given)).mapError rejection := by
  rw [merged, ← (takes_dump current current).update_update]

/-- What overrides give for settings. -/
def layer (overrides : Overrides) : Layer :=
  fun name => overrides.value? (.ofString name)

theorem layered_of_merged {overrides : Overrides} (h : current.merged overrides = .ok settings) :
    Layered (layer overrides) current settings := by
  rw [merged_eq, mapError_eq_ok] at h
  have hlayer : layerOf (namedEntries overrides.given) = layer overrides := by
    funext name
    rw [layerOf, lookup_namedEntries, Overrides.get?_given, layer]
  exact hlayer ▸ layered_of_update h

theorem merged_of_nothing {overrides : Overrides} (h : ∀ name, overrides.value? name = none)
    (current : Settings) : current.merged overrides = .ok current := by
  have hentries : overrides.given.entries = [] := by
    rw [List.eq_nil_iff_forall_not_mem]
    intro entry hentry
    rw [OrderedMap.mem_entries_iff, Overrides.get?_given, h] at hentry
    cases hentry
  rw [merged_eq, namedEntries, hentries]
  rfl

/-- A merge on top of another is a merge of the combined overrides. -/
theorem merged_combine {below : Overrides} (h : current.merged below = .ok settings) (above : Overrides) :
    settings.merged above = current.merged (below.combine above) := by
  rw [merged_eq, mapError_eq_ok] at h
  rw [merged_eq, merged_eq, Overrides.given_combine, (takes_of_update h).update_update]

theorem agree_of_combined {below above combined : Overrides} (h : current.merged below = .ok settings)
    (hcombined : ∀ name, combined.value? name = (above.value? name).or (below.value? name)) :
    Agree (settings.merged above) (current.merged combined) := by
  rw [merged_combine h, merged_eq, merged_eq]
  refine agree_of_same_values current fun name => ?_
  rw [Overrides.given_combine, OrderedMap.get?_update, Overrides.get?_given, Overrides.get?_given,
    Overrides.get?_given, hcombined]

/-- The settings after overrides were merged one after another, where overrides that are rejected leave
the settings as they are. -/
def afterMerges (settings : Settings) : List Overrides → Settings
  | [] => settings
  | overrides :: rest =>
      match settings.merged overrides with
      | .ok next => next.afterMerges rest
      | .error _ => settings.afterMerges rest

/-- The overrides that are not rejected when they are merged one after another. -/
def accepted (settings : Settings) : List Overrides → List Overrides
  | [] => []
  | overrides :: rest =>
      match settings.merged overrides with
      | .ok next => overrides :: next.accepted rest
      | .error _ => settings.accepted rest

/-- A sequence of merges comes to one merge of all overrides that are not rejected. -/
theorem merged_accepted {below : Overrides} (h : current.merged below = .ok settings)
    (steps : List Overrides) :
    current.merged ((settings.accepted steps).foldl Overrides.combine below) =
      .ok (settings.afterMerges steps) := by
  induction steps generalizing below settings with
  | nil => exact h
  | cons overrides rest ih =>
      rw [accepted, afterMerges]
      cases hstep : settings.merged overrides with
      | error cause => exact ih h
      | ok next => exact ih ((merged_combine h overrides).symm.trans hstep)

/-- The settings that a run may have: loaded ones, with any overrides on top of them. -/
inductive Reachable (surroundings : Surroundings) : Settings → Prop
  | load {disk : Disk} {config : Option String} {settings : Settings}
      (h : load surroundings disk config = .ok settings) : Reachable surroundings settings
  | merged {settings next : Settings} {overrides : Overrides} (h : Reachable surroundings settings)
      (hnext : settings.merged overrides = .ok next) : Reachable surroundings next

/-- Every value of reachable settings was given by some layer and taken for its setting, or is the one
for which nothing is given. -/
theorem Reachable.exists_layered {surroundings : Surroundings} (h : Reachable surroundings settings) :
    ∃ layer, Layered layer (initial surroundings) settings := by
  induction h with
  | load h => exact ⟨_, layered_of_load h⟩
  | merged _ hnext ih =>
      obtain ⟨lower, hlower⟩ := ih
      exact ⟨_, hlower.over (layered_of_merged hnext)⟩

/-- Settings merge field by field and stay in their ranges.  Nothing that is given for no value changes
a field, a second merge is one merge of the combined overrides, with the same settings or the same
error, and whatever the order of the overrides is, the objections are the same.  Overrides that are
rejected leave no trace in what comes after them. -/
theorem Reachable.merges_by_field {surroundings : Surroundings} (h : Reachable surroundings settings) :
    (settings.seed < 4294967296 ∧ 1 ≤ settings.fuzz ∧ 1 ≤ settings.workers ∧
      ∃ layer, Layered layer (initial surroundings) settings) ∧
    (∀ overrides : Overrides, (∀ name, overrides.value? name = none) →
      settings.merged overrides = .ok settings) ∧
    (∀ (below : Overrides) (next : Settings), settings.merged below = .ok next →
      Layered (layer below) settings next ∧
      (∀ above : Overrides, next.merged above = settings.merged (below.combine above)) ∧
      ∀ above combined : Overrides,
        (∀ name, combined.value? name = (above.value? name).or (below.value? name)) →
          Agree (next.merged above) (settings.merged combined)) ∧
    ∀ steps : List Overrides,
      settings.merged ((settings.accepted steps).foldl Overrides.combine .empty) =
        .ok (settings.afterMerges steps) := by
  have hempty : settings.merged .empty = .ok settings := merged_of_nothing (fun _ => rfl) settings
  refine ⟨⟨settings.seed_lt, settings.fuzz_pos, settings.workers_pos, h.exists_layered⟩,
    fun overrides hnothing => merged_of_nothing hnothing settings, fun below next hnext => ?_,
    merged_accepted hempty⟩
  exact ⟨layered_of_merged hnext, merged_combine hnext, fun above combined => agree_of_combined hnext⟩

/-- Surroundings in which a seed of seven is drawn. -/
def sevenDrawn : Surroundings :=
  ⟨⟨7, by decide⟩, some 4⟩

/-- A seed that is given as a text, a number of workers as a truth value, and no number of runs. -/
def coercedOverrides : Overrides :=
  .ofList
    [ (.ofString "seed", some (.text (.ofString "012")))
    , (.ofString "fuzz", none)
    , (.ofString "workers", some (.truth true)) ]

def coercedSettings : Settings where
  compiler := .ofString "elm"
  seed := 12
  fuzz := 100
  workers := 1
  report := .ofString "console"
  seed_lt := by decide
  fuzz_pos := (initial sevenDrawn).fuzz_pos
  workers_pos := Nat.one_pos

/-- A name that no setting has, and a number of runs that is too small. -/
def faultyOverrides : Overrides :=
  .ofList
    [ (.ofString "x", some (.whole 1))
    , (.ofString "seed", none)
    , (.ofString "fuzz", some (.truth false)) ]

theorem Reachable.merges_by_field_of_faulty :
    Reachable sevenDrawn (initial sevenDrawn) ∧
      (initial sevenDrawn).merged coercedOverrides = .ok coercedSettings ∧
      (initial sevenDrawn).merged (coercedOverrides.combine faultyOverrides) =
        .error (.settings ("Invalid settings: " ++
          "fuzz: Input should be greater than or equal to 1; x: Extra inputs are not permitted") none) := by
  have hload : Settings.load sevenDrawn ⟨.folder [], []⟩ none = .ok (initial sevenDrawn) := rfl
  have hstart : Reachable sevenDrawn (initial sevenDrawn) := .load hload
  have hcoerced : (initial sevenDrawn).merged coercedOverrides = .ok coercedSettings := by
    decide +kernel
  have hfound : coercedSettings.update (namedEntries faultyOverrides.given) =
      .error [⟨"fuzz", .below 1⟩, ⟨"x", .unknownName⟩] := by
    decide +kernel
  have hwords : describe [⟨"fuzz", .below 1⟩, ⟨"x", .unknownName⟩] = "Invalid settings: " ++
      "fuzz: Input should be greater than or equal to 1; x: Extra inputs are not permitted" := by
    decide +kernel
  have hfaulty : coercedSettings.merged faultyOverrides = .error (.settings ("Invalid settings: " ++
      "fuzz: Input should be greater than or equal to 1; x: Extra inputs are not permitted") none) := by
    rw [merged_eq, hfound, ← hwords]
    rfl
  obtain ⟨-, -, hmerges, -⟩ := hstart.merges_by_field
  exact ⟨hstart, hcoerced, ((hmerges _ _ hcoerced).2.1 faultyOverrides).symm.trans hfaulty⟩

end Settings

end ElmSuite
