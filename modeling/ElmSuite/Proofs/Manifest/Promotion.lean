import ElmSuite.Manifest.Basic
import ElmSuite.Proofs.OrderedMap

/-!
The promotion of test dependencies as a merge of four maps.  Whatever the maps have in common, no
package is lost and none is direct and indirect at once, and a package keeps the version of the first
map that has it: code comes before tests, and in both direct comes before indirect.  A second promotion
finds nothing to do.

The values of keys carry all of it.  A package is in a map exactly if it has a value there, so the sets
of names follow from the equations for the values.
-/

namespace ElmSuite

theorem Dependencies.mem_names {d : Dependencies} {name : Codes} :
    name ∈ d.names ↔ name ∈ d.direct.keys ∨ name ∈ d.indirect.keys := by
  rw [names, List.mem_eraseDups, List.mem_append]

namespace Dependencies

variable (normal test : Dependencies) (name : Codes)

/-- The version of a package, the one of a direct dependency if there is one. -/
def version? (d : Dependencies) (name : Codes) : Option Codes :=
  (d.direct.get? name).or (d.indirect.get? name)

theorem isSome_version?_iff (d : Dependencies) :
    (d.version? name).isSome = true ↔ name ∈ d.names := by
  rw [version?, Option.isSome_or, Bool.or_eq_true, OrderedMap.isSome_get?_iff,
    OrderedMap.isSome_get?_iff, mem_names]

theorem get?_direct_promote :
    (normal.promote test).direct.get? name =
      (normal.direct.get? name).or
        ((test.direct.get? name).map fun version => (normal.indirect.get? name).getD version) := by
  rw [promote, OrderedMap.get?_update, OrderedMap.get?_mapValues]

/-- A package is direct as soon as the code or its tests depend on it directly. -/
theorem mem_direct_promote :
    name ∈ (normal.promote test).direct.keys ↔
      name ∈ normal.direct.keys ∨ name ∈ test.direct.keys := by
  rw [← OrderedMap.isSome_get?_iff, get?_direct_promote, Option.isSome_or, Option.isSome_map,
    Bool.or_eq_true, OrderedMap.isSome_get?_iff, OrderedMap.isSome_get?_iff]

theorem get?_indirect_promote :
    (normal.promote test).indirect.get? name =
      if name ∈ (normal.promote test).direct.keys then none
      else (normal.indirect.get? name).or (test.indirect.get? name) := by
  change ((test.indirect.update normal.indirect).filterKeys fun name =>
    !(normal.promote test).direct.contains name).get? name = _
  rw [OrderedMap.get?_filterKeys, OrderedMap.get?_update]
  by_cases hmem : name ∈ (normal.promote test).direct.keys
  · rw [if_pos hmem, if_neg]
    rw [(OrderedMap.contains_iff _ _).2 hmem]
    decide
  · rw [if_neg hmem, if_pos]
    rw [Bool.not_eq_true', ← Bool.not_eq_true, OrderedMap.contains_iff]
    exact hmem

theorem not_mem_indirect_promote (h : name ∈ (normal.promote test).direct.keys) :
    name ∉ (normal.promote test).indirect.keys := by
  rw [← OrderedMap.isSome_get?_iff, get?_indirect_promote, if_pos h]
  decide

/-- Versions of the code win over those of its tests. -/
theorem version?_promote :
    (normal.promote test).version? name = (normal.version? name).or (test.version? name) := by
  rw [version?, get?_indirect_promote]
  by_cases hmem : name ∈ (normal.promote test).direct.keys
  · -- A test dependency that is promoted gets the version of an indirect one of the code.
    rw [if_pos hmem, Option.or_none, get?_direct_promote, version?, version?, Option.or_assoc]
    rw [mem_direct_promote, ← OrderedMap.isSome_get?_iff, ← OrderedMap.isSome_get?_iff] at hmem
    cases hdirect : normal.direct.get? name with
    | some version => rfl
    | none =>
        obtain ⟨version, htest⟩ := Option.isSome_iff_exists.1 (hmem.resolve_left (by rw [hdirect]; decide))
        rw [htest]
        cases normal.indirect.get? name <;> rfl
  · rw [if_neg hmem, OrderedMap.get?_eq_none hmem, Option.none_or]
    rw [mem_direct_promote, not_or] at hmem
    rw [version?, version?, OrderedMap.get?_eq_none hmem.1, OrderedMap.get?_eq_none hmem.2]
    rfl

/-- Without dependencies of tests there is nothing to merge, not even an order of entries to change. -/
theorem promote_empty {d : Dependencies} (h : ∀ name ∈ d.direct.keys, name ∉ d.indirect.keys) :
    d.promote .empty = d := by
  obtain ⟨direct, indirect⟩ := d
  have hdirect : OrderedMap.empty.update direct = direct := OrderedMap.ofList_entries direct
  have hindirect : OrderedMap.empty.update indirect = indirect := OrderedMap.ofList_entries indirect
  change Dependencies.mk (OrderedMap.empty.update direct) ((OrderedMap.empty.update indirect).filterKeys
    fun name => !(OrderedMap.empty.update direct).contains name) = _
  rw [hdirect, hindirect, OrderedMap.filterKeys_eq_self]
  intro name hname
  rw [Bool.not_eq_true', ← Bool.not_eq_true, OrderedMap.contains_iff]
  exact fun hmem => h name hmem hname

end Dependencies

namespace Application

/-- The four maps from packages to versions, the ones that win first. -/
def pins (app : Application) : List (OrderedMap Codes Codes) :=
  [app.dependencies.direct, app.dependencies.indirect,
    app.testDependencies.direct, app.testDependencies.indirect]

/-- What is true of an application after the promotion of its test dependencies. -/
structure Promoted (old new : Application) : Prop where
  testDependencies : new.testDependencies = .empty
  disjoint : ∀ name ∈ new.dependencies.direct.keys, name ∉ new.dependencies.indirect.keys
  direct : ∀ name, name ∈ new.dependencies.direct.keys ↔
    name ∈ old.dependencies.direct.keys ∨ name ∈ old.testDependencies.direct.keys
  names : ∀ name, name ∈ new.dependencies.names ↔ ∃ pins ∈ old.pins, name ∈ pins.keys
  version : ∀ name, new.dependencies.version? name = old.pins.findSome? (·.get? name)
  sourceDirectories : new.sourceDirectories = old.sourceDirectories
  elmVersion : new.elmVersion = old.elmVersion
  settled : new.promote = new

theorem findSome?_pins (app : Application) (name : Codes) :
    app.pins.findSome? (·.get? name) =
      (app.dependencies.version? name).or (app.testDependencies.version? name) := by
  have hcons : ∀ (first : OrderedMap Codes Codes) (rest : List (OrderedMap Codes Codes)),
      (first :: rest).findSome? (·.get? name) = (first.get? name).or (rest.findSome? (·.get? name)) :=
    fun first rest => by
      rw [List.findSome?_cons]
      cases first.get? name <;> rfl
  rw [pins, hcons, hcons, hcons, hcons, List.findSome?_nil, Option.or_none, ← Option.or_assoc,
    Dependencies.version?, Dependencies.version?]

/-- The promotion of test dependencies merges all four maps without loss, for maps that overlap in any
way. -/
theorem promote_merges (app : Application) : Promoted app app.promote where
  testDependencies := rfl
  disjoint _ h := Dependencies.not_mem_indirect_promote _ _ _ h
  direct := Dependencies.mem_direct_promote _ _
  names name := by
    rw [← Dependencies.isSome_version?_iff]
    change ((app.dependencies.promote app.testDependencies).version? name).isSome = true ↔ _
    rw [Dependencies.version?_promote, ← findSome?_pins, List.findSome?_isSome_iff]
    exact exists_congr fun pins => and_congr_right fun _ => OrderedMap.isSome_get?_iff pins name
  version name := by
    rw [findSome?_pins]
    exact Dependencies.version?_promote _ _ name
  sourceDirectories := rfl
  elmVersion := rfl
  settled := by
    rw [promote]
    congr 1
    exact Dependencies.promote_empty fun name h => Dependencies.not_mem_indirect_promote _ _ name h

end Application

end ElmSuite
