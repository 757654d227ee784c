import ElmSuite.Manifest.Schema
import ElmSuite.Proofs.Json.Texts

/-!
The texts of checked documents.  A check takes every text from the outline that it checks, so the
texts of a manifest or of dependencies have every property that all texts of the outline have.
-/

namespace ElmSuite

/-- The names and versions of packages. -/
def OrderedMap.texts (versions : OrderedMap Codes Codes) : List Codes :=
  versions.entries.flatMap fun entry => [entry.1, entry.2]

/-- The names and versions of dependencies. -/
def Dependencies.texts (d : Dependencies) : List Codes :=
  d.direct.texts ++ d.indirect.texts

/-- All texts of an application. -/
def Application.texts (app : Application) : List Codes :=
  app.sourceDirectories ++ app.elmVersion :: (app.dependencies.texts ++ app.testDependencies.texts)

/-- All names and versions have a property. -/
theorem OrderedMap.forall_mem_texts {P : Codes → Prop} {versions : OrderedMap Codes Codes} :
    (∀ codes ∈ versions.texts, P codes) ↔ ∀ entry ∈ versions.entries, P entry.1 ∧ P entry.2 := by
  simp only [texts, List.forall_mem_flatMap, List.forall_mem_cons, List.not_mem_nil, false_imp_iff,
    implies_true, and_true]

theorem Dependencies.forall_mem_texts {P : Codes → Prop} {d : Dependencies} :
    (∀ codes ∈ d.texts, P codes) ↔
      (∀ codes ∈ d.direct.texts, P codes) ∧ ∀ codes ∈ d.indirect.texts, P codes :=
  List.forall_mem_append

theorem Application.forall_mem_texts {P : Codes → Prop} {app : Application} :
    (∀ codes ∈ app.texts, P codes) ↔
      (∀ codes ∈ app.sourceDirectories, P codes) ∧ P app.elmVersion ∧
        (∀ codes ∈ app.dependencies.texts, P codes) ∧ ∀ codes ∈ app.testDependencies.texts, P codes := by
  rw [texts, List.forall_mem_append, List.forall_mem_cons, List.forall_mem_append]

namespace Schema

variable {α β : Type}

theorem also_eq_ok {f : Checked (α → β)} {a : Checked α} {value : β} :
    also f a = .ok value ↔ ∃ g b, f = .ok g ∧ a = .ok b ∧ g b = value := by
  cases f <;> cases a <;> simp [also]

theorem all_eq_ok {checks : List (Checked α)} {values : List α} :
    all checks = .ok values ↔ checks = values.map .ok := by
  induction checks generalizing values with
  | nil => cases values <;> simp [all]
  | cons check checks ih =>
      rw [all, also_eq_ok]
      constructor
      · rintro ⟨_, rest, hfirst, hrest, rfl⟩
        obtain ⟨first, rfl, rfl⟩ := map_eq_ok.1 hfirst
        rw [ih.1 hrest, List.map_cons]
      · intro h
        rcases values with _ | ⟨first, rest⟩
        · cases h
        · rw [List.map_cons, List.cons.injEq] at h
          exact ⟨_, rest, map_eq_ok.2 ⟨first, h.1, rfl⟩, ih.2 h.2, rfl⟩

theorem fail_ne_ok {place : List String} {words label : String} {value : α} :
    fail place words label ≠ .ok value := by
  rintro ⟨⟩

variable {P : Codes → Prop}

theorem of_text {place : List String} {outline : Outline} {codes : Codes}
    (h : text place outline = .ok codes) (hall : outline.AllTexts P) : P codes := by
  cases hall with
  | text hcodes =>
      cases h
      exact hcodes
  | _ => cases h

theorem of_texts {place : List String} {outline : Outline} {found : List Codes}
    (h : texts place outline = .ok found) (hall : outline.AllTexts P) : ∀ codes ∈ found, P codes := by
  cases hall with
  | @list items hitems =>
      rw [texts, all_eq_ok] at h
      intro codes hcodes
      have hmem : (.ok codes : Checked Codes) ∈ found.map .ok := List.mem_map_of_mem hcodes
      rw [← h, List.mem_mapIdx] at hmem
      obtain ⟨index, hindex, hcheck⟩ := hmem
      exact of_text hcheck (hitems _ (List.getElem_mem hindex))
  | _ => cases h

theorem of_members {wording : Wording} {check : List String → Outline → Checked α}
    {place : List String} {outline : Outline} {found : OrderedMap Codes α} {Q : α → Prop}
    (h : members wording check place outline = .ok found) (hall : outline.AllTexts P)
    (hcheck : ∀ {place outline value}, check place outline = .ok value → outline.AllTexts P → Q value) :
    ∀ entry ∈ found.entries, P entry.1 ∧ Q entry.2 := by
  cases hall with
  | @object members hnames hvalues =>
      obtain ⟨entries, hentries, rfl⟩ := map_eq_ok.1 h
      rw [all_eq_ok] at hentries
      intro entry hentry
      have hmem : (.ok entry : Checked (Codes × α)) ∈ entries.map .ok :=
        List.mem_map_of_mem (OrderedMap.mem_ofList hentry)
      rw [← hentries, List.mem_map] at hmem
      obtain ⟨⟨name, value⟩, hmember, hentry⟩ := hmem
      obtain ⟨checked, hchecked, rfl⟩ := map_eq_ok.1 hentry
      exact ⟨hnames _ hmember, hcheck hchecked (hvalues _ hmember)⟩
  | _ => cases h

theorem of_versions {wording : Wording} {place : List String} {outline : Outline}
    {found : OrderedMap Codes Codes} (h : versions wording place outline = .ok found)
    (hall : outline.AllTexts P) : ∀ codes ∈ found.texts, P codes :=
  OrderedMap.forall_mem_texts.2 (of_members h hall of_text)

/-- What a field gives is checked, or stands for an absent one. -/
theorem of_field {names place : List String} {object : List (Codes × Outline)}
    {absent : List String → Checked α} {check : List String → Outline → Checked α} {value : α}
    {Q : α → Prop} (h : field names place object absent check = .ok value)
    (hall : (Outline.object object).AllTexts P) (habsent : ∀ {place}, absent place = .ok value → Q value)
    (hcheck : ∀ {place outline}, check place outline = .ok value → outline.AllTexts P → Q value) :
    Q value := by
  unfold field at h
  dsimp only at h
  split at h
  · next name outline hfound =>
    obtain ⟨_, -, hlookup⟩ := List.exists_of_findSome?_eq_some hfound
    obtain ⟨_, hlookup, heq⟩ := Option.map_eq_some_iff.1 hlookup
    cases heq
    have hmem := List.mem_reverse.1 (mem_of_lookup hlookup)
    obtain _ | _ | ⟨-, hvalues⟩ := hall
    exact hcheck h (hvalues _ hmem)
  · exact habsent h

theorem of_required {names place : List String} {object : List (Codes × Outline)}
    {check : List String → Outline → Checked α} {value : α} {Q : α → Prop}
    (h : required names place object check = .ok value) (hall : (Outline.object object).AllTexts P)
    (hcheck : ∀ {place outline}, check place outline = .ok value → outline.AllTexts P → Q value) :
    Q value :=
  of_field h hall (fun habsent => absurd habsent fail_ne_ok) hcheck

theorem of_optional {default : α} {names place : List String} {object : List (Codes × Outline)}
    {check : List String → Outline → Checked α} {value : α} {Q : α → Prop}
    (h : optional default names place object check = .ok value)
    (hall : (Outline.object object).AllTexts P) (hdefault : Q default)
    (hcheck : ∀ {place outline}, check place outline = .ok value → outline.AllTexts P → Q value) :
    Q value := by
  apply of_field h hall _ hcheck
  rintro _ ⟨⟩
  exact hdefault

theorem of_dependencies {wording : Wording} {place : List String} {outline : Outline}
    {found : Dependencies} (h : dependencies wording place outline = .ok found)
    (hall : outline.AllTexts P) : ∀ codes ∈ found.texts, P codes := by
  cases outline with
  | object object =>
      rw [dependencies] at h
      split at h
      · exact absurd h fail_ne_ok
      · simp only [also_eq_ok, Except.ok.injEq] at h
        obtain ⟨_, _, ⟨_, indirect, ⟨_, direct, rfl, hdirect, rfl⟩, hindirect, rfl⟩, -, rfl⟩ := h
        have hversions {versions : OrderedMap Codes Codes} {names place : List String}
            (hfield : optional .empty names place object (Schema.versions wording) = .ok versions) :
            ∀ codes ∈ versions.texts, P codes :=
          of_optional (Q := fun versions => ∀ codes ∈ versions.texts, P codes) hfield hall
            (fun codes hcodes => absurd hcodes List.not_mem_nil) of_versions
        rw [Dependencies.forall_mem_texts]
        exact ⟨hversions hdirect, hversions hindirect⟩
  | _ => exact absurd h fail_ne_ok

theorem of_application {object : List (Codes × Outline)} {app : Application}
    (h : application object = .ok app) (hall : (Outline.object object).AllTexts P) :
    ∀ codes ∈ app.texts, P codes := by
  simp only [application, also_eq_ok, Except.ok.injEq] at h
  obtain ⟨_, test, ⟨_, normal, ⟨_, version, ⟨_, directories, rfl, hdirectories, rfl⟩, hversion, rfl⟩,
    hnormal, rfl⟩, htest, rfl⟩ := h
  have hdependencies {found : Dependencies} {names place : List String}
      (hfield : optional .empty names place object (dependencies manifestWording) = .ok found) :
      ∀ codes ∈ found.texts, P codes :=
    of_optional (Q := fun d => ∀ codes ∈ d.texts, P codes) hfield hall
      (fun codes hcodes => absurd hcodes List.not_mem_nil) of_dependencies
  rw [Application.forall_mem_texts]
  exact ⟨of_required (Q := fun found => ∀ codes ∈ found, P codes) hdirectories hall of_texts,
    of_required hversion hall of_text, hdependencies hnormal, hdependencies htest⟩

theorem of_constraints {place : List String} {outline : Outline}
    {found : OrderedMap Codes Constraint} (h : constraints place outline = .ok found)
    (hall : outline.AllTexts P) : ∀ entry ∈ found.entries, P entry.1 := by
  obtain ⟨versions, hversions, h⟩ := bind_eq_ok.1 h
  obtain ⟨parsed, hparsed, h⟩ := bind_eq_ok.1 h
  cases h
  intro entry hentry
  have htexts := OrderedMap.forall_mem_texts.1 (of_versions hversions hall)
  obtain ⟨given, hgiven, heq⟩ := exists_of_mem_mapM hparsed entry (OrderedMap.mem_ofList hentry)
  dsimp only at heq
  split at heq
  · cases heq
    exact (htexts _ hgiven).1
  · exact absurd heq fail_ne_ok

/-- The names of the packages that a package depends on. -/
theorem of_package {object : List (Codes × Outline)} {pkg : Package}
    (h : package object = .ok pkg) (hall : (Outline.object object).AllTexts P) :
    (∀ entry ∈ pkg.dependencies.entries, P entry.1) ∧
      ∀ entry ∈ pkg.testDependencies.entries, P entry.1 := by
  simp only [package] at h
  obtain ⟨_, test, hfront, htest, rfl⟩ := also_eq_ok.1 h
  obtain ⟨_, normal, hfront₁, hnormal, rfl⟩ := also_eq_ok.1 hfront
  obtain ⟨_, version, hfront₂, -, rfl⟩ := also_eq_ok.1 hfront₁
  obtain ⟨_, exposed, hfront₃, -, rfl⟩ := also_eq_ok.1 hfront₂
  obtain ⟨_, _, hfront₄, -, rfl⟩ := also_eq_ok.1 hfront₃
  obtain ⟨_, _, hfront₅, -, rfl⟩ := also_eq_ok.1 hfront₄
  obtain ⟨_, _, hfront₆, -, rfl⟩ := also_eq_ok.1 hfront₅
  obtain ⟨_, _, hfront₇, -, rfl⟩ := also_eq_ok.1 hfront₆
  cases hfront₇
  have hconstraints {found : OrderedMap Codes Constraint} {names place : List String}
      (hfield : optional .empty names place object constraints = .ok found) :
      ∀ entry ∈ found.entries, P entry.1 :=
    of_optional (Q := fun found => ∀ entry ∈ found.entries, P entry.1) hfield hall
      (fun entry hentry => absurd hentry List.not_mem_nil) of_constraints
  exact ⟨hconstraints hnormal, hconstraints htest⟩

end Schema

end ElmSuite
