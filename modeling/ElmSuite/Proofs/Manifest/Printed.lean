import ElmSuite.Manifest.Printer
import ElmSuite.Proofs.Manifest.CheckedTexts

/-!
Printed manifests.  The checks find every field of a printed manifest in its place, an application of
nothing but texts is read back as it is, and one without halves of surrogate pairs can be written.
-/

namespace ElmSuite

/-! ### The checks of a printed manifest -/

namespace Schema

theorem texts_outline (place : List String) (codes : List Codes) :
    texts place (Json.list (codes.map .string)).outline = .ok codes := by
  rw [Json.outline, Json.outlineItems_eq_map, texts, all_eq_ok]
  apply List.ext_getElem
  · simp
  · intro index hleft hright
    simp [Json.outline, text]

theorem versions_outline (wording : Wording) (place : List String)
    (versions : OrderedMap Codes Codes) :
    Schema.versions wording place (versionsJson versions).outline = .ok versions := by
  rw [versionsJson, Json.outline, Json.outlineMembers_eq_map, Schema.versions, members]
  refine map_eq_ok.2 ⟨versions.entries, ?_, versions.ofList_entries⟩
  rw [all_eq_ok, List.map_map, List.map_map]
  rfl

theorem dependencies_outline (wording : Wording) (place : List String) (d : Dependencies) :
    dependencies wording place d.toJson.outline = .ok d := by
  have hdirect := versions_outline wording (place ++ ["direct"]) d.direct
  have hindirect := versions_outline wording (place ++ ["indirect"]) d.indirect
  change also (also (also (.ok fun direct indirect _ => Dependencies.mk direct indirect)
    (Schema.versions wording (place ++ ["direct"]) (versionsJson d.direct).outline))
    (Schema.versions wording (place ++ ["indirect"]) (versionsJson d.indirect).outline))
    (.ok ()) = .ok d
  rw [hdirect, hindirect]
  rfl

theorem manifest_of_toJson {app : Application} {members : List (Codes × Json)}
    (h : app.toJson = .object members) : manifest members = .ok (.application app) := by
  cases h
  have hdirectories := texts_outline ["application", "source-directories"] app.sourceDirectories
  have hnormal :=
    dependencies_outline manifestWording ["application", "dependencies"] app.dependencies
  have htest :=
    dependencies_outline manifestWording ["application", "test-dependencies"] app.testDependencies
  -- The names of the members are fixed, so each field finds its own.
  change (also (also (also (also (.ok Application.mk)
    (texts ["application", "source-directories"]
      (Json.list (app.sourceDirectories.map .string)).outline))
    (.ok app.elmVersion))
    (dependencies manifestWording ["application", "dependencies"] app.dependencies.toJson.outline))
    (dependencies manifestWording ["application", "test-dependencies"]
      app.testDependencies.toJson.outline)).map Manifest.application = .ok (.application app)
  rw [hdirectories, hnormal, htest]
  rfl

end Schema

/-! ### What a printed manifest is read as -/

theorem isTextual_versionsJson (depth : Nat) (versions : OrderedMap Codes Codes) :
    (versionsJson versions).IsTextual (depth + 1) := by
  rw [versionsJson, Json.IsTextual, List.forall_mem_map]
  intro entry _
  cases depth <;> trivial

theorem Dependencies.isTextual_toJson (depth : Nat) (d : Dependencies) :
    d.toJson.IsTextual (depth + 2) := by
  rw [toJson, Json.IsTextual]
  simp only [List.forall_mem_cons]
  exact ⟨isTextual_versionsJson depth _, isTextual_versionsJson depth _, by simp⟩

theorem Application.isTextual_toJson (depth : Nat) (app : Application) :
    app.toJson.IsTextual (depth + 3) := by
  rw [toJson, Json.IsTextual]
  simp only [List.forall_mem_cons]
  refine ⟨trivial, ?_, trivial, app.dependencies.isTextual_toJson depth,
    app.testDependencies.isTextual_toJson depth, by simp⟩
  rw [Json.IsTextual, List.forall_mem_map]
  exact fun _ _ => trivial

theorem reread_string {codes : Codes} (h : codes.IsText) :
    (Json.string codes).reread = .string codes := by
  rw [Json.reread, Json.ofText, Codes.ofString_lossy h]

theorem reread_versionsJson {versions : OrderedMap Codes Codes}
    (h : ∀ codes ∈ versions.texts, codes.IsText) :
    (versionsJson versions).reread = versionsJson versions := by
  rw [OrderedMap.forall_mem_texts] at h
  rw [versionsJson, Json.reread, Json.rereadMembers_eq_append, List.nil_append]
  · exact List.forall_mem_map.2 fun entry hentry => Codes.ofString_lossy (h entry hentry).1
  · exact List.forall_mem_map.2 fun entry hentry => reread_string (h entry hentry).2
  · rw [List.nil_append, List.map_map]
    exact versions.keys_nodup

theorem Dependencies.reread_toJson {d : Dependencies} (h : ∀ codes ∈ d.texts, codes.IsText) :
    d.toJson.reread = d.toJson := by
  rw [forall_mem_texts] at h
  have hdirect := reread_versionsJson h.1
  have hindirect := reread_versionsJson h.2
  rw [toJson, Json.reread, Json.rereadMembers_eq_append, List.nil_append]
  · simp only [List.forall_mem_cons]
    exact ⟨by decide, by decide, by simp⟩
  · simp only [List.forall_mem_cons]
    exact ⟨hdirect, hindirect, by simp⟩
  · change (["direct", "indirect"].map Codes.ofString).Nodup
    decide

theorem Application.reread_toJson {app : Application} (h : ∀ codes ∈ app.texts, codes.IsText) :
    app.toJson.reread = app.toJson := by
  rw [forall_mem_texts] at h
  obtain ⟨hdirectories, hversion, hnormal, htest⟩ := h
  rw [toJson, Json.reread, Json.rereadMembers_eq_append, List.nil_append]
  · simp only [List.forall_mem_cons]
    exact ⟨by decide, by decide, by decide, by decide, by decide, by simp⟩
  · simp only [List.forall_mem_cons]
    refine ⟨reread_string (Codes.isText_ofString _), ?_, reread_string hversion, Dependencies.reread_toJson hnormal,
      Dependencies.reread_toJson htest, by simp⟩
    rw [Json.reread, Json.rereadItems_eq_self]
    exact List.forall_mem_map.2 fun codes hcodes => reread_string (hdirectories codes hcodes)
  · change (["type", "source-directories", "elm-version", "dependencies",
      "test-dependencies"].map Codes.ofString).Nodup
    decide

/-! ### Which manifests can be written -/

namespace Json

theorem surrogatesOfItems?_eq_none {items : List Json} :
    surrogatesOfItems? items = none ↔ ∀ item ∈ items, item.surrogates? = none := by
  induction items with
  | nil => simp [surrogatesOfItems?]
  | cons item items ih => rw [surrogatesOfItems?, Option.or_eq_none_iff, ih, List.forall_mem_cons]

theorem surrogatesOfMembers?_eq_none {members : List (Codes × Json)} :
    surrogatesOfMembers? members = none ↔ ∀ member ∈ members, member.2.surrogates? = none := by
  induction members with
  | nil => simp [surrogatesOfMembers?]
  | cons member members ih =>
      rw [surrogatesOfMembers?, Option.or_eq_none_iff, ih, List.forall_mem_cons]

theorem surrogates?_string {codes : Codes} :
    (Json.string codes).surrogates? = none ↔ codes.IsWhole := by
  rw [surrogates?, Codes.surrogates?_eq_none]

end Json

theorem surrogates?_versionsJson {versions : OrderedMap Codes Codes}
    (h : ∀ codes ∈ versions.texts, codes.IsWhole) : (versionsJson versions).surrogates? = none := by
  rw [versionsJson, Json.surrogates?, Json.surrogatesOfMembers?_eq_none, List.forall_mem_map]
  exact fun entry hentry =>
    Json.surrogates?_string.2 (OrderedMap.forall_mem_texts.1 h entry hentry).2

theorem Dependencies.surrogates?_toJson {d : Dependencies} (h : ∀ codes ∈ d.texts, codes.IsWhole) :
    d.toJson.surrogates? = none := by
  rw [forall_mem_texts] at h
  rw [toJson, Json.surrogates?, Json.surrogatesOfMembers?_eq_none]
  simp only [List.forall_mem_cons]
  exact ⟨surrogates?_versionsJson h.1, surrogates?_versionsJson h.2, by simp⟩

namespace Application

/-- No text of an application holds half of a surrogate pair. -/
def IsWhole (app : Application) : Prop :=
  ∀ codes ∈ app.texts, codes.IsWhole

theorem print_of_isWhole {app : Application} (h : app.IsWhole) :
    app.print = .ok app.toJson.print := by
  obtain ⟨hdirectories, hversion, hnormal, htest⟩ := forall_mem_texts.1 h
  have hnone : app.toJson.surrogates? = none := by
    rw [toJson, Json.surrogates?, Json.surrogatesOfMembers?_eq_none]
    simp only [List.forall_mem_cons]
    refine ⟨by decide, ?_, Json.surrogates?_string.2 hversion,
      Dependencies.surrogates?_toJson hnormal, Dependencies.surrogates?_toJson htest, by simp⟩
    rw [Json.surrogates?, Json.surrogatesOfItems?_eq_none, List.forall_mem_map]
    exact fun codes hcodes => Json.surrogates?_string.2 (hdirectories codes hcodes)
  rw [print, hnone]

/-- The directories and the version of an application that can be written hold no half of a surrogate
pair. -/
theorem isWhole_of_print {app : Application} {text : List Char} (h : app.print = .ok text) :
    (∀ directory ∈ app.sourceDirectories, directory.IsWhole) ∧ app.elmVersion.IsWhole := by
  unfold print at h
  split at h
  · cases h
  · next hnone =>
    rw [toJson, Json.surrogates?, Json.surrogatesOfMembers?_eq_none] at hnone
    simp only [List.forall_mem_cons] at hnone
    obtain ⟨-, hdirectories, hversion, -⟩ := hnone
    rw [Json.surrogates?, Json.surrogatesOfItems?_eq_none, List.forall_mem_map] at hdirectories
    exact ⟨fun directory hdirectory => Json.surrogates?_string.1 (hdirectories directory hdirectory),
      Json.surrogates?_string.1 hversion⟩

theorem eq_print_of_print {app : Application} {text : List Char} (h : app.print = .ok text) :
    text = app.toJson.print := by
  unfold print at h
  split at h <;> cases h
  rfl

theorem readText_print {app : Application} {text : List Char} (h : app.print = .ok text) :
    Json.readText text = .ok app.toJson.reread := by
  rw [eq_print_of_print h]
  exact Json.readText_print (app.isTextual_toJson 987)

theorem not_mem_print {app : Application} {text : List Char} (h : app.print = .ok text) :
    '\r' ∉ text := by
  rw [eq_print_of_print h]
  exact Json.not_mem_print (app.isTextual_toJson 0)

end Application

end ElmSuite
