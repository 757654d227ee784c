import ElmSuite.Manifest.File
import ElmSuite.Proofs.Disk.Growth
import ElmSuite.Proofs.Manifest.Printed
import ElmSuite.Proofs.Text.Utf8
import ElmSuite.Proofs.World.Actions

/-!
Application manifests read back.  However an application comes about, its printed text holds it again,
on disk as well as in memory, unless one of its texts holds half of a surrogate pair: such a value
cannot be written, and such a name is read back as another one.
-/

namespace ElmSuite

/-! ### Which texts a manifest holds -/

variable {P : Codes → Prop}

theorem Dependencies.forall_mem_pinnedVersions (htext : ∀ text, P (.ofString text))
    {constraints : OrderedMap Codes Constraint} (h : ∀ entry ∈ constraints.entries, P entry.1) :
    ∀ codes ∈ (pinnedVersions constraints).texts, P codes := by
  rw [forall_mem_texts]
  refine ⟨OrderedMap.forall_mem_texts.2 ?_, fun codes hcodes => absurd hcodes List.not_mem_nil⟩
  rw [pinnedVersions, OrderedMap.mapValues, List.forall_mem_map]
  exact fun entry hentry => ⟨h entry hentry, htext _⟩

/-- The texts of the manifest in a text have every property that all texts of the value have which the
text holds, if all strings have it. -/
theorem Manifest.forall_mem_texts_of_ofText {text : List Char} {path : Option String}
    {manifest : Manifest} {value : Json} (h : ofText text path = .ok manifest)
    (hread : Json.readText text = .ok value) (hall : value.outline.AllTexts P)
    (htext : ∀ text, P (.ofString text)) : ∀ codes ∈ manifest.toApplication.texts, P codes := by
  unfold ofText at h
  rw [hread] at h
  split at h
  · cases h
  · cases h
  · cases h
  · next members heq =>
    cases heq
    split at h
    · next found hmanifest =>
      cases h
      rw [Json.outline] at hall
      unfold Schema.manifest at hmanifest
      dsimp only at hmanifest
      split at hmanifest
      · exact absurd hmanifest Schema.fail_ne_ok
      · split at hmanifest
        · obtain ⟨app, happ, rfl⟩ := map_eq_ok.1 hmanifest
          exact Schema.of_application happ hall
        · split at hmanifest
          · obtain ⟨pkg, hpkg, rfl⟩ := map_eq_ok.1 hmanifest
            obtain ⟨hnormal, htest⟩ := Schema.of_package hpkg hall
            rw [Application.forall_mem_texts]
            exact ⟨List.forall_mem_singleton.2 (htext _), htext _,
              Dependencies.forall_mem_pinnedVersions htext hnormal,
              Dependencies.forall_mem_pinnedVersions htext htest⟩
          · exact absurd hmanifest Schema.fail_ne_ok
    · cases h
  · cases h

theorem Manifest.exists_read_of_ofText {text : List Char} {path : Option String}
    {manifest : Manifest} (h : ofText text path = .ok manifest) :
    ∃ value, Json.readText text = .ok value := by
  unfold ofText at h
  split at h
  · cases h
  · cases h
  · cases h
  · next members hread => exact ⟨_, hread⟩
  · cases h

theorem Manifest.inRange_of_ofText {text : List Char} {path : Option String} {manifest : Manifest}
    (h : ofText text path = .ok manifest) :
    ∀ codes ∈ manifest.toApplication.texts, codes.InRange := by
  obtain ⟨value, hread⟩ := exists_read_of_ofText h
  exact forall_mem_texts_of_ofText h hread (Json.allTexts_of_readText hread) fun text =>
    (Codes.isText_ofString text).inRange

theorem Dependencies.isText_of_ofText {text : List Char} {found : Dependencies}
    (h : ofText text = .ok found) : ∀ codes ∈ found.texts, codes.IsText := by
  unfold ofText at h
  dsimp only at h
  split at h
  · next found' hchecked =>
    cases h
    split at hchecked
    · exact absurd hchecked Schema.fail_ne_ok
    · next outline hread =>
      exact Schema.of_dependencies hchecked (Outline.allTexts_of_readBytes hread)
  · cases h

/-- Dependencies and those of tests together have no other texts. -/
theorem Dependencies.forall_mem_promote {normal test : Dependencies}
    (hnormal : ∀ codes ∈ normal.texts, P codes) (htest : ∀ codes ∈ test.texts, P codes) :
    ∀ codes ∈ (normal.promote test).texts, P codes := by
  simp only [forall_mem_texts, OrderedMap.forall_mem_texts] at hnormal htest ⊢
  have hpinned : ∀ entry ∈ (test.direct.mapValues fun name version =>
      (normal.indirect.get? name).getD version).entries, P entry.1 ∧ P entry.2 := by
    refine List.forall_mem_map.2 fun entry hentry => ⟨(htest.1 entry hentry).1, ?_⟩
    change P ((normal.indirect.get? entry.1).getD entry.2)
    cases hget : normal.indirect.get? entry.1 with
    | none => exact (htest.1 entry hentry).2
    | some version => exact (hnormal.2 _ (mem_of_lookup hget)).2
  refine ⟨fun entry hentry => ?_, fun entry hentry => ?_⟩
  · rcases OrderedMap.mem_update hentry with hmem | hmem
    · exact hpinned entry hmem
    · exact hnormal.1 entry hmem
  · rcases OrderedMap.mem_update (List.mem_filter.1 hentry).1 with hmem | hmem
    · exact htest.2 entry hmem
    · exact hnormal.2 entry hmem

theorem Application.forall_mem_promote {app : Application} (h : ∀ codes ∈ app.texts, P codes) :
    ∀ codes ∈ app.promote.texts, P codes := by
  rw [forall_mem_texts] at h ⊢
  obtain ⟨hdirectories, hversion, hnormal, htest⟩ := h
  exact ⟨hdirectories, hversion, Dependencies.forall_mem_promote hnormal htest,
    fun codes hcodes => absurd hcodes List.not_mem_nil⟩

/-! ### How applications come about -/

namespace Application

/-- An application that is the one of some manifest, after any number of promotions and of changes to
dependencies that were read. -/
inductive Reachable : Application → Prop
  | loaded {text : List Char} {path : Option String} {manifest : Manifest}
      (h : Manifest.ofText text path = .ok manifest) : Reachable manifest.toApplication
  | promoted {app : Application} (h : Reachable app) : Reachable app.promote
  | withDependencies {app : Application} {text : List Char} {found : Dependencies} (h : Reachable app)
      (hfound : Dependencies.ofText text = .ok found) : Reachable { app with dependencies := found }
  | withTestDependencies {app : Application} {text : List Char} {found : Dependencies}
      (h : Reachable app) (hfound : Dependencies.ofText text = .ok found) :
      Reachable { app with testDependencies := found }

theorem Reachable.inRange {app : Application} (h : app.Reachable) :
    ∀ codes ∈ app.texts, codes.InRange := by
  induction h with
  | loaded h => exact Manifest.inRange_of_ofText h
  | promoted _ ih => exact forall_mem_promote ih
  | withDependencies _ hfound ih =>
      rw [forall_mem_texts] at ih ⊢
      exact ⟨ih.1, ih.2.1,
        fun codes hcodes => (Dependencies.isText_of_ofText hfound codes hcodes).inRange, ih.2.2.2⟩
  | withTestDependencies _ hfound ih =>
      rw [forall_mem_texts] at ih ⊢
      exact ⟨ih.1, ih.2.1, ih.2.2.1,
        fun codes hcodes => (Dependencies.isText_of_ofText hfound codes hcodes).inRange⟩

/-- What is read back of a printed application holds nothing but texts. -/
theorem isText_of_ofText_print {app : Application} {text : List Char} {path : Option String}
    {manifest : Manifest} (hprint : app.print = .ok text)
    (h : Manifest.ofText text path = .ok manifest) :
    ∀ codes ∈ manifest.toApplication.texts, codes.IsText :=
  Manifest.forall_mem_texts_of_ofText h (readText_print hprint) (Json.allTexts_reread _)
    Codes.isText_ofString

/-- An application of nothing but texts is read back from its printed text. -/
theorem ofText_print {app : Application} {text : List Char} (hprint : app.print = .ok text)
    (h : ∀ codes ∈ app.texts, codes.IsText) (path : Option String) :
    Manifest.ofText text path = .ok (.application app) := by
  have hread := readText_print hprint
  rw [reread_toJson h] at hread
  obtain ⟨members, hmembers⟩ : ∃ members, app.toJson = .object members := ⟨_, rfl⟩
  unfold Manifest.ofText
  rw [hread, hmembers]
  dsimp only
  rw [Schema.manifest_of_toJson hmembers]

variable {app : Application}

/-- The printed text of an application of code points holds it exactly if the application holds no half
of a surrogate pair. -/
theorem ofText_print_iff (h : ∀ codes ∈ app.texts, codes.InRange) {text : List Char}
    (hprint : app.print = .ok text) (path : Option String) :
    Manifest.ofText text path = .ok (.application app) ↔ app.IsWhole := by
  constructor
  · intro hread codes hcodes
    exact (isText_of_ofText_print hprint hread codes hcodes).isWhole
  · intro hwhole
    exact ofText_print hprint (fun codes hcodes =>
      (Codes.isText_iff codes).2 ⟨h codes hcodes, hwhole codes hcodes⟩) path

end Application

/-! ### On disk -/

namespace ManifestFile

/-- What it takes to write a manifest. -/
theorem exists_write_of_write {app : Application} {path value : Path} {world after : World}
    (h : (write app path).run world = (.ok value, after)) :
    ∃ text made, app.print = .ok text ∧ Disk.makeFolders path.parent world.disk = (.ok (), made) ∧
      made.writeText path.toString text = .ok after.disk := by
  obtain ⟨_, between, hfolders, h⟩ := Act.run_bind_eq_ok.1 h
  rw [Act.run_makeFolders, Prod.mk.injEq, mapError_eq_ok] at hfolders
  obtain ⟨hmade, rfl⟩ := hfolders
  obtain ⟨text, _, hresult, h⟩ := Act.run_bind_eq_ok.1 h
  obtain ⟨hprint, rfl⟩ := Act.run_ofFault_eq_ok.1 hresult
  obtain ⟨_, _, hwrite, h⟩ := Act.run_bind_eq_ok.1 h
  obtain ⟨disk, hdisk, rfl⟩ := Act.run_change_eq_ok.1 hwrite
  cases h
  exact ⟨text, _, hprint, Prod.ext hmade rfl, hdisk⟩

/-- A manifest that is written to a file is there with its printed text. -/
theorem find_of_write {app : Application} {path value : Path} {world after : World}
    (h : (write app path).run world = (.ok value, after))
    (hfile : after.disk.isFile path.toString = true) :
    ∃ text location, app.print = .ok text ∧
      after.disk.find path.toString = .ok (location, .file (Text.Utf8.encode text)) := by
  obtain ⟨text, made, hprint, -, hwrite⟩ := exists_write_of_write h
  rcases Disk.writeBytes_eq_ok hwrite with ⟨location, hfind, -⟩ | ⟨hsame, hnofile⟩
  · exact ⟨text, location, hprint, hfind⟩
  · unfold Disk.isFile at hfile
    rw [hsame] at hfile
    split at hfile
    · next location node hfind =>
      cases node with
      | file bytes => exact absurd hfind (hnofile location bytes)
      | _ => cases hfile
    · cases hfile

theorem readText_of_find {disk : Disk} {path : String} {text : List Char} {location : List String}
    (h : disk.find path = .ok (location, .file (Text.Utf8.encode text))) (hline : '\r' ∉ text) :
    disk.readText path = .ok text := by
  unfold Disk.readText Disk.readBytes
  rw [h]
  simp only [ok_bind, Text.Utf8.decode_encode, Text.normalizeNewlines_eq_self hline]

theorem run_load_of_readText {given : String} {world : World} {text : List Char}
    (h : world.disk.readText (Path.ofString given).toString = .ok text) :
    (load given).run world = (Manifest.ofText text (some given), world) := by
  have hread : (readText (.ofString given)).run world = (.ok text, world) := by
    rw [readText, Act.run_orElse, Act.readText, Act.run_look, h]
    rfl
  rw [load, Act.run_bind, hread]
  rfl

end ManifestFile

namespace Application

/-- An application is read back from its printed text, and from the file that it is written to, exactly
if it holds no half of a surrogate pair. -/
theorem Reachable.reads_back {app : Application} (h : app.Reachable) :
    (∀ path, (∃ text, app.print = .ok text ∧
        Manifest.ofText text path = .ok (.application app)) ↔ app.IsWhole) ∧
      ∀ given value world after,
        (ManifestFile.write app (.ofString given)).run world = (.ok value, after) →
        after.disk.isFile (Path.ofString given).toString = true →
          ((ManifestFile.load given).run after = (.ok (.application app), after) ↔ app.IsWhole) := by
  refine ⟨fun path => ⟨?_, fun hwhole => ?_⟩, fun given value world after hwrite hfile => ?_⟩
  · rintro ⟨text, hprint, hread⟩
    exact (ofText_print_iff h.inRange hprint path).1 hread
  · have hprint := print_of_isWhole hwhole
    exact ⟨_, hprint, (ofText_print_iff h.inRange hprint path).2 hwhole⟩
  · obtain ⟨text, location, hprint, hfind⟩ := ManifestFile.find_of_write hwrite hfile
    have hread := ManifestFile.readText_of_find hfind (not_mem_print hprint)
    rw [ManifestFile.run_load_of_readText hread, Prod.mk.injEq, ofText_print_iff h.inRange hprint]
    exact and_iff_left rfl

/-- A manifest whose strings need escapes. -/
def escapedManifest : List Char :=
  [ "\x7b\"type\":\"application\",", "\"source-directories\":[\"\\ud83d\\ude00\",\"a\\r\\n\\\"\"],",
    "\"elm-version\":\"\\u0000\\\\\",", "\"dependencies\":\x7b",
    "\"indirect\":\x7b\"\\t\":\"1\",\"\":\"\"\x7d\x7d\x7d" ].flatMap String.toList

/-- The application in that manifest. -/
def escapedApplication : Application where
  sourceDirectories := [[0x1F600], Codes.ofString "a\r\n\""]
  elmVersion := .ofString "\x00\\"
  dependencies := ⟨.empty, .ofList [(.ofString "\t", .ofString "1"), ([], [])]⟩
  testDependencies := .empty

/-- Escapes are read back, in memory and on disk. -/
theorem reads_back_of_escapes :
    escapedApplication.Reachable ∧
      (∃ text, escapedApplication.print = .ok text ∧
        Manifest.ofText text none = .ok (.application escapedApplication)) ∧
      ∃ value after,
        (ManifestFile.write escapedApplication (.ofString "/elm.json")).run ⟨⟨.folder [], []⟩, [], []⟩ =
          (.ok value, after) ∧
        (ManifestFile.load "/elm.json").run after = (.ok (.application escapedApplication), after) := by
  have hload : (Manifest.ofText escapedManifest none).toOption.map Manifest.toApplication =
      some escapedApplication := by
    decide +kernel
  have hreachable : escapedApplication.Reachable := by
    rcases htext : Manifest.ofText escapedManifest none with trouble | manifest
    · rw [htext] at hload
      cases hload
    · rw [htext] at hload
      rw [← Option.some.inj hload]
      exact .loaded htext
  have hwhole : escapedApplication.IsWhole := by
    unfold IsWhole Codes.IsWhole
    decide +kernel
  have hwrite : (((ManifestFile.write escapedApplication (.ofString "/elm.json")).run
      ⟨⟨.folder [], []⟩, [], []⟩).1.toOption.isSome = true) ∧
      ((ManifestFile.write escapedApplication (.ofString "/elm.json")).run
        ⟨⟨.folder [], []⟩, [], []⟩).2.disk.isFile (Path.ofString "/elm.json").toString = true := by
    decide +kernel
  obtain ⟨hprint, hdisk⟩ := hreachable.reads_back
  refine ⟨hreachable, (hprint none).2 hwhole, ?_⟩
  rcases hrun : (ManifestFile.write escapedApplication (.ofString "/elm.json")).run
    ⟨⟨.folder [], []⟩, [], []⟩ with ⟨trouble | value, after⟩
  · rw [hrun] at hwrite
    cases hwrite.1
  · rw [hrun] at hwrite
    exact ⟨value, after, rfl, (hdisk _ _ _ _ hrun hwrite.2).2 hwhole⟩

end Application

end ElmSuite
