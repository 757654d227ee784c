import ElmSuite.Proofs.Manifest.CheckedTexts
import ElmSuite.Proofs.Manifest.ConstraintGrammar
import ElmSuite.Proofs.Manifest.Promotion

/-!
The conversion of packages.  The constraints of a package are looked at when its document is checked
and pinned when it becomes an application, and the second look, which nothing guards, always succeeds:
whatever text is accepted as a package, each of its constraints is one of the grammar.
-/

namespace ElmSuite

namespace Codes

theorem string?_eq_some_iff {codes : Codes} {text : String} :
    codes.string? = some text ↔ codes = ofString text := by
  have hcode (code : Nat) (c : Char) : charOf? code = some c ↔ code = c.toNat := by
    rw [charOf?, Option.ite_none_right_eq_some, Option.some.injEq]
    constructor
    · rintro ⟨hvalid, rfl⟩
      rw [Char.ofNat, dif_pos hvalid]
      rfl
    · rintro rfl
      exact ⟨c.valid, Char.ofNat_toNat c⟩
  have hchars (chars : List Char) : codes.mapM charOf? = some chars ↔ codes = ofChars chars := by
    induction codes generalizing chars with
    | nil => cases chars <;> simp [ofChars]
    | cons code codes ih =>
        rw [List.mapM_cons]
        cases chars <;> simp_all [ofChars, Option.bind_eq_some_iff]
  rw [string?, Option.map_eq_some_iff, ofString]
  simp only [hchars]
  constructor
  · rintro ⟨chars, rfl, rfl⟩
    rw [String.toList_ofList]
  · exact fun h => ⟨text.toList, h, String.ofList_toList⟩

end Codes

namespace Constraint

theorem ofText?_text (constraint : Constraint) : ofText? constraint.text = some constraint := by
  unfold ofText?
  split
  · exact congrArg some (ext rfl)
  · next h =>
    rw [constraint.pinned] at h
    cases h

theorem ofCodes?_eq_some_iff {codes : Codes} {constraint : Constraint} :
    ofCodes? codes = some constraint ↔ codes = .ofString constraint.text := by
  rw [ofCodes?, Option.bind_eq_some_iff]
  constructor
  · rintro ⟨text, htext, hconstraint⟩
    rw [Codes.string?_eq_some_iff.1 htext]
    unfold ofText? at hconstraint
    split at hconstraint
    · cases hconstraint
      rfl
    · cases hconstraint
  · exact fun h => ⟨constraint.text, Codes.string?_eq_some_iff.2 h, constraint.ofText?_text⟩

end Constraint

namespace Package

/-- Constraints as they are written. -/
def written (constraints : OrderedMap Codes Constraint) : OrderedMap Codes Codes :=
  constraints.mapValues fun _ constraint => .ofString constraint.text

/-- A dependency with its constraint pinned. -/
def pinEntry (entry : Codes × Codes) : Except Fault (Codes × Codes) :=
  match Constraint.ofCodes? entry.2 with
  | some constraint => .ok (entry.1, .ofString constraint.version)
  | none => .error (.badConstraint entry.2)

/-- Dependencies with all constraints pinned, as long as nobody has looked at these before. -/
def pinAll (given : OrderedMap Codes Codes) : Except Fault Dependencies :=
  (given.entries.mapM pinEntry).map fun entries => ⟨.ofList entries, .empty⟩

/-- The application of a package with the given dependencies and test dependencies, which fails with a
text that is no constraint. -/
def convert (normal test : OrderedMap Codes Codes) : Except Fault Application := do
  return {
    sourceDirectories := [.ofString "src"]
    elmVersion := .ofString defaultElmVersion
    dependencies := ← pinAll normal
    testDependencies := ← pinAll test }

theorem pinAll_written (constraints : OrderedMap Codes Constraint) :
    pinAll (written constraints) = .ok (pinnedVersions constraints) := by
  have hpin (entries : List (Codes × Constraint)) :
      (entries.map fun entry => (entry.1, Codes.ofString entry.2.text)).mapM pinEntry =
        .ok (entries.map fun entry => (entry.1, .ofString entry.2.version)) := by
    induction entries with
    | nil => rfl
    | cons entry entries ih =>
        rw [List.map_cons, List.mapM_cons, ih, pinEntry, Constraint.ofCodes?_eq_some_iff.2 rfl]
        rfl
  rw [pinAll, written, OrderedMap.mapValues, hpin]
  exact congrArg (fun direct => Except.ok (Dependencies.mk direct .empty))
    (OrderedMap.ofList_entries (pinnedVersions constraints).direct)

theorem convert_written (pkg : Package) :
    convert (written pkg.dependencies) (written pkg.testDependencies) = .ok pkg.toApplication := by
  rw [convert, pinAll_written, pinAll_written]
  rfl

end Package

/-! ### Constraints of a document -/

namespace Schema

/-- Texts that are constraints are checked for what they are written as. -/
theorem versions_of_constraints {place : List String} {value : Outline}
    {found : OrderedMap Codes Constraint} (h : constraints place value = .ok found) :
    versions manifestWording place value = .ok (Package.written found) := by
  obtain ⟨given, hgiven, h⟩ := bind_eq_ok.1 h
  obtain ⟨parsed, hparsed, h⟩ := bind_eq_ok.1 h
  cases h
  have hentries : (parsed.map fun entry => (entry.1, Codes.ofString entry.2.text)) = given.entries := by
    refine map_of_mapM (fun item value heq => ?_) hparsed
    dsimp only at heq
    split at heq
    · next hconstraint =>
      cases heq
      rw [← Constraint.ofCodes?_eq_some_iff.1 hconstraint]
    · exact absurd heq fail_ne_ok
  have hnodup : (parsed.map Prod.fst).Nodup := by
    have hkeys := given.keys_nodup
    rw [← hentries, List.map_map] at hkeys
    exact hkeys
  have hfound : (OrderedMap.ofList parsed).entries = parsed := OrderedMap.entries_insertMany hnodup
  rw [hgiven]
  refine congrArg _ (OrderedMap.ext ?_)
  change given.entries = (OrderedMap.ofList parsed).entries.map fun entry =>
    (entry.1, Codes.ofString entry.2.text)
  rw [hfound, hentries]

theorem optional_versions_of_constraints {names place : List String}
    {object : List (Codes × Outline)} {found : OrderedMap Codes Constraint}
    (h : optional .empty names place object constraints = .ok found) :
    optional .empty names place object (versions manifestWording) = .ok (Package.written found) := by
  unfold optional field at h ⊢
  dsimp only at h ⊢
  split
  · next heq =>
    rw [heq] at h
    exact versions_of_constraints h
  · next heq =>
    rw [heq] at h
    cases h
    rfl

end Schema

namespace Package

/-- The object that a document holds has the dependencies of a package, each with the constraint of the
package as it is written there. -/
structure Spelled (members : List (Codes × Json)) (pkg : Package) : Prop where
  dependencies : Schema.optional .empty ["dependencies"] ["package"] (Json.outlineMembers members)
    (Schema.versions Schema.manifestWording) = .ok (written pkg.dependencies)
  testDependencies : Schema.optional .empty ["test-dependencies", "test_dependencies"] ["package"]
    (Json.outlineMembers members) (Schema.versions Schema.manifestWording) =
      .ok (written pkg.testDependencies)

theorem spelled_of_package {members : List (Codes × Json)} {pkg : Package}
    (h : Schema.package (Json.outlineMembers members) = .ok pkg) : Spelled members pkg := by
  simp only [Schema.package] at h
  obtain ⟨_, test, hfront, htest, rfl⟩ := Schema.also_eq_ok.1 h
  obtain ⟨_, normal, hfront₁, hnormal, rfl⟩ := Schema.also_eq_ok.1 hfront
  obtain ⟨_, version, hfront₂, -, rfl⟩ := Schema.also_eq_ok.1 hfront₁
  obtain ⟨_, exposed, hfront₃, -, rfl⟩ := Schema.also_eq_ok.1 hfront₂
  obtain ⟨_, _, hfront₄, -, rfl⟩ := Schema.also_eq_ok.1 hfront₃
  obtain ⟨_, _, hfront₅, -, rfl⟩ := Schema.also_eq_ok.1 hfront₄
  obtain ⟨_, _, hfront₆, -, rfl⟩ := Schema.also_eq_ok.1 hfront₅
  obtain ⟨_, _, hfront₇, -, rfl⟩ := Schema.also_eq_ok.1 hfront₆
  cases hfront₇
  exact ⟨Schema.optional_versions_of_constraints hnormal, Schema.optional_versions_of_constraints htest⟩

end Package

theorem Manifest.package_of_ofText {text : List Char} {path : Option String} {pkg : Package}
    (h : ofText text path = .ok (.package pkg)) : ∃ members, Json.readText text = .ok (.object members) ∧
      Schema.package (Json.outlineMembers members) = .ok pkg := by
  unfold ofText at h
  split at h
  · cases h
  · cases h
  · cases h
  · next members hread =>
    split at h
    · next manifest hchecked =>
      cases h
      refine ⟨members, hread, ?_⟩
      unfold Schema.manifest at hchecked
      dsimp only at hchecked
      split at hchecked
      · exact absurd hchecked Schema.fail_ne_ok
      · split at hchecked
        · obtain ⟨_, -, heq⟩ := map_eq_ok.1 hchecked
          cases heq
        · split at hchecked
          · obtain ⟨_, hpackage, heq⟩ := map_eq_ok.1 hchecked
            cases heq
            exact hpackage
          · exact absurd hchecked Schema.fail_ne_ok
    · cases h
  · cases h

/-! ### The application of a package -/

namespace Package

/-- A constraint and what it is pinned to: a bare version, which is all of the constraint but for white
space or the lower bound of its range. -/
def IsPin (constraint pin : Codes) : Prop :=
  ∃ spelled version : List Char, constraint = .ofChars spelled ∧ pin = .ofChars version ∧
    version ∈ Constraint.versions ∧ spelled ∈ Constraint.spellings version

/-- A dependency and the same one with its constraint pinned. -/
def PinsEntry (given pinned : Codes × Codes) : Prop :=
  pinned.1 = given.1 ∧ IsPin given.2 pinned.2

/-- What is true of the application of a package. -/
structure Converted (pkg : Package) (app : Application) : Prop where
  succeeds : convert (written pkg.dependencies) (written pkg.testDependencies) = .ok app
  sourceDirectories : app.sourceDirectories = [.ofString "src"]
  elmVersion : app.elmVersion = .ofString "0.19.1"
  indirect : app.dependencies.indirect = .empty
  testIndirect : app.testDependencies.indirect = .empty
  direct : List.Forall₂ PinsEntry (written pkg.dependencies).entries
    app.dependencies.direct.entries
  testDirect : List.Forall₂ PinsEntry (written pkg.testDependencies).entries
    app.testDependencies.direct.entries
  promotedNames : ∀ name, name ∈ app.promote.dependencies.direct.keys ↔
    name ∈ (written pkg.dependencies).keys ∨ name ∈ (written pkg.testDependencies).keys
  promotedIndirect : app.promote.dependencies.indirect = .empty
  promoted : ∀ name, app.promote.dependencies.direct.get? name =
    (app.dependencies.direct.get? name).or (app.testDependencies.direct.get? name)

theorem forall₂_pinsEntry (constraints : OrderedMap Codes Constraint) :
    List.Forall₂ PinsEntry (written constraints).entries (pinnedVersions constraints).direct.entries := by
  change List.Forall₂ _ (constraints.entries.map fun entry => (entry.1, Codes.ofString entry.2.text))
    (constraints.entries.map fun entry => (entry.1, Codes.ofString entry.2.version))
  rw [List.forall₂_map_left_iff, List.forall₂_map_right_iff, List.forall₂_same]
  intro entry _
  obtain ⟨hbare, hbound⟩ := Constraint.pin?_eq_some_iff.1 entry.2.pinned
  exact ⟨rfl, entry.2.text.toList, entry.2.version.toList, rfl, rfl, hbare, hbound⟩

theorem converted_toApplication (pkg : Package) : Converted pkg pkg.toApplication := by
  have hkeys (constraints : OrderedMap Codes Constraint) :
      (pinnedVersions constraints).direct.keys = (written constraints).keys := by
    simp [pinnedVersions, written, OrderedMap.keys, OrderedMap.mapValues]
  refine ⟨convert_written pkg, rfl, rfl, rfl, rfl, forall₂_pinsEntry _, forall₂_pinsEntry _, fun name => ?_, rfl,
    fun name => ?_⟩
  · rw [← hkeys, ← hkeys]
    exact Dependencies.mem_direct_promote _ _ _
  · refine (Dependencies.get?_direct_promote _ _ _).trans (congrArg _ ?_)
    exact Option.map_id'

/-- Every text that is accepted as a package can be converted: the constraints of the document are
pinned without a failure, each to the version it starts from. -/
theorem toApplication_of_ofText {text : List Char} {path : Option String} {pkg : Package}
    (h : Manifest.ofText text path = .ok (.package pkg)) :
    ∃ members, Json.readText text = .ok (.object members) ∧ Spelled members pkg ∧
      Converted pkg pkg.toApplication := by
  obtain ⟨members, hread, hpackage⟩ := Manifest.package_of_ofText h
  exact ⟨members, hread, spelled_of_package hpackage, converted_toApplication pkg⟩

/-- A package with a dependency that is also one of its tests, and with white space in its
constraints. -/
def spacedPackage : List Char :=
  [ "\x7b\"type\":\"package\",\"name\":\"a/b\",\"version\":\"1.0.0\",\"elm-version\":\"0.19.1\",",
    "\"dependencies\":\x7b\"elm/core\":\" 1.0.2<=v< 2.0.0\\n\",\"elm/json\":\"\\t1.1.3 \"\x7d,",
    "\"test-dependencies\":\x7b\"elm/core\":\"1.0.0 <= v < 2.0.0\"\x7d\x7d" ].flatMap String.toList

/-- White space is no obstacle, and code comes before tests. -/
theorem toApplication_of_spacedPackage :
    ∃ pkg members, Manifest.ofText spacedPackage none = .ok (.package pkg) ∧
      Json.readText spacedPackage = .ok (.object members) ∧ Spelled members pkg ∧
      Converted pkg pkg.toApplication ∧
      pkg.toApplication.promote.dependencies.direct.entries =
        [(.ofString "elm/core", .ofString "1.0.2"), (.ofString "elm/json", .ofString "1.1.3")] := by
  have hload : (Manifest.ofText spacedPackage none).toOption.map (fun manifest =>
      (manifest matches .package _, manifest.toApplication.promote.dependencies.direct.entries)) =
      some (true, [(.ofString "elm/core", .ofString "1.0.2"), (.ofString "elm/json", .ofString "1.1.3")]) := by
    decide +kernel
  rcases htext : Manifest.ofText spacedPackage none with trouble | (app | pkg)
  · rw [htext] at hload
    cases hload
  · rw [htext] at hload
    cases hload
  · rw [htext] at hload
    obtain ⟨members, hread, hspelled, hconverted⟩ := toApplication_of_ofText htext
    exact ⟨pkg, members, rfl, hread, hspelled, hconverted, (Prod.mk.inj (Option.some.inj hload)).2⟩

end Package

end ElmSuite
