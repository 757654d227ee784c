import ElmSuite.Proofs.Run.GuardedManifest

/-!
How the manifest of the generated project comes about.  It is drafted from the manifest of the host
and written before the solver is asked; what the solver answers takes the place of its dependencies.
-/

namespace ElmSuite

open Act

/-- How the manifest of a generated project is drafted from the manifest of the host: it has the
directories of the host as they are seen from the generated project, the version of Elm of the host,
and all its dependencies among the normal ones. -/
structure Drafted (context : RunContext) (layout : Layout) (disk : Disk) (host : Manifest)
    (draft : Application) : Prop where
  read : ∃ text path, disk.readText (layout.projectRoot.child ManifestFile.fileName).toString = .ok text ∧
    Manifest.ofText text path = .ok host
  directories : ∃ projectRoot generated folders before after,
    disk.locateLeniently layout.projectRoot = .ok projectRoot ∧
    disk.locateLeniently (projectRoot.join layout.root) = .ok generated ∧ before.disk = disk ∧
    (Synthesis.sourceDirectories host.toApplication.sourceDirectories projectRoot).run before =
      (.ok folders, after) ∧
    draft.sourceDirectories =
      (Synthesis.relativeTo disk generated folders ++
        ["src", context.installation.helperSources.toString]).map Codes.ofString
  elmVersion : draft.elmVersion = host.toApplication.elmVersion
  package : ∀ pkg, host = .package pkg → draft.elmVersion = .ofString "0.19.1"
  dependencies :
    draft.dependencies = host.toApplication.dependencies.promote host.toApplication.testDependencies
  testDependencies : draft.testDependencies = .empty

theorem Drafted.inRange {context : RunContext} {layout : Layout} {disk : Disk} {host : Manifest}
    {draft : Application} (h : Drafted context layout disk host draft) :
    ∀ codes ∈ draft.texts, codes.InRange := by
  obtain ⟨text, path, -, hread⟩ := h.read
  obtain ⟨_, _, _, _, _, _, _, _, _, hdirectories⟩ := h.directories
  obtain ⟨-, hversion, hnormal, htest⟩ :=
    Application.forall_mem_texts.1 (Manifest.inRange_of_ofText hread)
  rw [Application.forall_mem_texts, hdirectories, h.elmVersion, h.dependencies, h.testDependencies]
  refine ⟨List.forall_mem_map.2 fun text _ => (Codes.isText_ofString text).inRange, hversion,
    Dependencies.forall_mem_promote hnormal htest, fun codes hcodes => ?_⟩
  exact absurd hcodes List.not_mem_nil

theorem Drafted.inRange_withDependencies {context : RunContext} {layout : Layout} {disk : Disk}
    {host : Manifest} {draft : Application} (h : Drafted context layout disk host draft)
    {answer : List Char} {found : Dependencies} (hfound : Dependencies.ofText answer = .ok found) :
    ∀ codes ∈ ({ draft with dependencies := found } : Application).texts, codes.InRange := by
  obtain ⟨hdirectories, hversion, -, htest⟩ := Application.forall_mem_texts.1 h.inRange
  exact Application.forall_mem_texts.2 ⟨hdirectories, hversion,
    fun codes hcodes => (Dependencies.isText_of_ofText hfound codes hcodes).inRange, htest⟩

theorem Application.isWhole_withDependencies {draft : Application} {text answer : List Char}
    {found : Dependencies} (hprint : draft.print = .ok text) (htest : draft.testDependencies = .empty)
    (hfound : Dependencies.ofText answer = .ok found) :
    ({ draft with dependencies := found } : Application).IsWhole := by
  obtain ⟨hdirectories, hversion⟩ := isWhole_of_print hprint
  refine forall_mem_texts.2 ⟨hdirectories, hversion,
    fun codes hcodes => (Dependencies.isText_of_ofText hfound codes hcodes).isWhole, ?_⟩
  rw [htest]
  exact fun codes hcodes => absurd hcodes List.not_mem_nil

/-- What it takes to synthesize a manifest from a text. -/
theorem Synthesis.exists_host_of_ofText {text : List Char} {root generated helper : Path}
    {world after : World} {synthesis : Synthesis}
    (h : (ofText text root generated helper).run world = (.ok synthesis, after)) :
    after.disk = world.disk ∧ ∃ projectRoot location host,
      world.disk.locateLeniently root = .ok projectRoot ∧
      world.disk.locateLeniently (projectRoot.join generated) = .ok location ∧
      Manifest.ofText text (some (projectRoot.child ManifestFile.fileName).toString) = .ok host ∧
      (sourceDirectories host.toApplication.sourceDirectories projectRoot).run world =
        (.ok synthesis.directories, after) ∧
      synthesis.app = { host.toApplication with
        sourceDirectories := (relativeTo world.disk location synthesis.directories ++
          ["src", helper.toString]).map Codes.ofString }.promote := by
  have hkeep : after.disk = world.disk := (keeps_ofText tolerant_sameDisk _ _ _ _).of_run h
  refine ⟨hkeep, ?_⟩
  obtain ⟨projectRoot, _, hlocate, h⟩ := run_bind_eq_ok.1 h
  obtain ⟨hroot, rfl⟩ := run_look_eq_ok.1 hlocate
  obtain ⟨location, _, hlocate', h⟩ := run_bind_eq_ok.1 h
  obtain ⟨hgenerated, rfl⟩ := run_look_eq_ok.1 hlocate'
  obtain ⟨host, _, hhost, h⟩ := run_bind_eq_ok.1 h
  rw [run_ofTrouble, Prod.mk.injEq] at hhost
  obtain ⟨hhost, rfl⟩ := hhost
  obtain ⟨folders, between, hfolders, h⟩ := run_bind_eq_ok.1 h
  obtain ⟨disk, _, hdisk, h⟩ := run_bind_eq_ok.1 h
  cases hdisk
  cases h
  refine ⟨projectRoot, location, host, hroot, hgenerated, hhost, hfolders, ?_⟩
  rw [← hkeep, List.map_append]
  rfl

theorem Synthesis.drafted_of_ofText {context : RunContext} {layout : Layout} {text : List Char}
    {world after : World} {synthesis : Synthesis}
    (hread : world.disk.readText (layout.projectRoot.child ManifestFile.fileName).toString = .ok text)
    (h : (ofText text layout.projectRoot layout.root context.installation.helperSources).run world =
      (.ok synthesis, after)) :
    after.disk = world.disk ∧ ∃ host, Drafted context layout world.disk host synthesis.app := by
  obtain ⟨hkeep, projectRoot, generated, host, hroot, hgenerated, hhost, hfolders, happ⟩ :=
    exists_host_of_ofText h
  refine ⟨hkeep, host, ?_⟩
  rw [happ]
  refine ⟨⟨text, _, hread, hhost⟩,
    ⟨projectRoot, generated, _, world, after, hroot, hgenerated, rfl, hfolders, rfl⟩, rfl, ?_, rfl, rfl⟩
  rintro pkg rfl
  rfl

/-- The steps that synthesize a manifest, if they all go well. -/
theorem Pipeline.exists_steps_of_synthesize {context : RunContext} {layout : Layout}
    {world after : World} {synthesis : Synthesis}
    (h : (synthesize context layout).run world = (.ok synthesis, after)) :
    ∃ text between made value,
      world.disk.readText (layout.projectRoot.child ManifestFile.fileName).toString = .ok text ∧
      (Synthesis.ofText text layout.projectRoot layout.root
        context.installation.helperSources).run world = (.ok synthesis, between) ∧
      (makeFolders layout).run between = (.ok (), made) ∧
      (ManifestFile.write synthesis.app layout.manifest).run made = (.ok value, after) := by
  obtain ⟨text, _, hread, h⟩ := run_bind_eq_ok.1 h
  obtain ⟨synthesized, between, hofText, h⟩ := run_bind_eq_ok.1 h
  obtain ⟨_, made, hmade, h⟩ := run_bind_eq_ok.1 h
  obtain ⟨value, _, hwrite, h⟩ := run_bind_eq_ok.1 h
  cases h
  rw [ManifestFile.readText, run_orElse] at hread
  split at hread
  · next hlook =>
    cases hread
    obtain ⟨hread, rfl⟩ := run_look_eq_ok.1 hlook
    exact ⟨text, between, made, value, hread, hofText, hmade, hwrite⟩
  · cases hread
  · cases hread

/-- What it takes to synthesize a manifest. -/
theorem Pipeline.exists_draft_of_synthesize {context : RunContext} {layout : Layout}
    {world after : World} {synthesis : Synthesis}
    (h : (synthesize context layout).run world = (.ok synthesis, after)) :
    ∃ host made value, Drafted context layout world.disk host synthesis.app ∧
      (∀ spared, world.disk.Grows spared made.disk) ∧
      (ManifestFile.write synthesis.app layout.manifest).run made = (.ok value, after) := by
  obtain ⟨text, between, made, value, hread, hofText, hmade, hwrite⟩ := exists_steps_of_synthesize h
  obtain ⟨hsame, host, hdrafted⟩ := Synthesis.drafted_of_ofText hread hofText
  refine ⟨host, made, value, hdrafted, fun spared => ?_, hwrite⟩
  rw [← hsame]
  obtain ⟨_, _, hsources, hscripts⟩ := run_bind_eq_ok.1 hmade
  rw [run_makeFolders, Prod.mk.injEq] at hsources hscripts
  obtain ⟨-, rfl⟩ := hsources
  obtain ⟨-, rfl⟩ := hscripts
  exact (Disk.makeFolders_grow _ _ _).trans (Disk.makeFolders_grow _ _ _)

/-! ### Writing the manifest -/

/-- A manifest that is not written leaves all files as they are. -/
theorem ManifestFile.grows_of_write_eq_error {app : Application} {path : Path} {world after : World}
    {trouble : Trouble} (h : (write app path).run world = (.error trouble, after))
    (spared : List String → Prop) : world.disk.Grows spared after.disk := by
  have hgrows := Disk.makeFolders_grow spared path.parent world.disk
  rw [write, run_bind, run_makeFolders] at h
  cases hmade : (Disk.makeFolders path.parent world.disk).1 with
  | error fault =>
      rw [hmade] at h
      cases h
      exact hgrows
  | ok _ =>
      rw [hmade] at h
      dsimp only [Except.mapError] at h
      rw [run_bind, run_ofFault] at h
      cases hprint : app.print with
      | error fault =>
          rw [hprint] at h
          cases h
          exact hgrows
      | ok text =>
          rw [hprint] at h
          dsimp only [Except.mapError] at h
          rw [run_bind, Act.writeText, run_change] at h
          split at h
          · cases h
          · next hwrite =>
            split at hwrite
            · cases hwrite
            · cases hwrite
              cases h
              exact hgrows

namespace Pipeline

variable {context : RunContext} {root : Path} {folder : List String} {world after : World}

/-- Wherever the root of a project leads, nothing but files and folders stands at or below `elm-stuff`
in it. -/
def PlainInside (disk : Disk) (root : Path) : Prop :=
  ∀ folder, Disk.Leads disk [] (Disk.steps root.toString) folder →
    ∀ below node, disk.nodeAt? (folder ++ "elm-stuff" :: below) = some node →
      node.isFile = true ∨ node.isFolder = true

theorem PlainInside.noLinkInside {disk : Disk} (h : PlainInside disk root) : NoLinkInside disk root := by
  intro folder hleads below target hlink
  rcases h folder hleads below _ hlink with hfile | hfolder
  · cases hfile
  · cases hfolder

end Pipeline

/-- A manifest that is written where only files and folders are is guarded from then on. -/
theorem Sheltered.guarded_of_write {root : Path} {linked folder : List String} {app : Application}
    {value : Path} {world after : World} (h : Sheltered root linked folder world.disk)
    (hroot : root.anchor ≠ .here)
    (hplain : ∀ node, world.disk.nodeAt? (folder ++ manifestNames) = some node →
      node.isFile = true ∨ node.isFolder = true)
    (hwrite : (ManifestFile.write app (Layout.mk root defaultElmVersion).manifest).run world =
      (.ok value, after)) :
    ∃ text, app.print = .ok text ∧
      Guarded root linked folder (Text.Utf8.encode text) after.disk := by
  obtain ⟨text, made, hprint, hmade, hwrite⟩ := ManifestFile.exists_write_of_write hwrite
  have hgrows := Disk.makeFolders_grow (fun _ => False)
    (Layout.mk root defaultElmVersion).manifest.parent world.disk
  rw [hmade] at hgrows
  have hsheltered := h.grow hgrows
  refine ⟨text, hprint, ?_⟩
  obtain ⟨location, hfind⟩ := Disk.find_of_writeBytes hwrite fun location node hfound => by
    rw [hsheltered.location_manifest hroot hfound] at hfound
    exact hgrows.plain hplain (Disk.nodeAt?_of_find_eq hfound)
  have hafter : Sheltered root linked folder after.disk := by
    rcases Disk.writeBytes_eq_ok hwrite with ⟨_, -, hgrows⟩ | ⟨hsame, -⟩
    · exact hsheltered.grow hgrows
    · rw [hsame]
      exact hsheltered
  refine ⟨hafter, ?_⟩
  rw [hafter.location_manifest hroot hfind] at hfind
  exact hfind

namespace Pipeline

/-- A stage that is to solve the dependencies and gives no result leaves all files as they are. -/
theorem grows_of_solve_eq_error {context : RunContext} (hconfined : context.tools.Confined)
    {layout : Layout} {app : Application} {world after : World} {trouble : Trouble}
    (h : (solve context layout app).run world = (.error trouble, after))
    (spared : List String → Prop) : world.disk.Grows spared after.disk := by
  rw [solve, run_bind, run_report] at h
  dsimp only at h
  rw [run_bind, Solver.run_solve, Solver.respond] at h
  dsimp only at h
  cases hrefusal : context.tools.solver.refusal with
  | some refusal =>
      rw [hrefusal] at h
      cases h
      exact .refl spared world.disk
  | none =>
      rw [hrefusal] at h
      dsimp only at h
      rw [run_bind, run_affect, hconfined.solver] at h
      dsimp only at h
      rw [run_ofFailure] at h
      cases hanswer : Solver.readAnswer context.tools.solver with
      | error cause =>
          rw [hanswer] at h
          cases h
          exact .refl spared world.disk
      | ok found =>
          rw [hanswer] at h
          dsimp only [Except.mapError, id_eq] at h
          rw [run_bind] at h
          split at h
          · cases h
          · next hwrite =>
            cases h
            exact ManifestFile.grows_of_write_eq_error hwrite spared

/-- What it takes to solve the dependencies. -/
theorem exists_write_of_solve {context : RunContext} (hconfined : context.tools.Confined)
    {layout : Layout} {app : Application} {world after : World} {found : Dependencies}
    (h : (solve context layout app).run world = (.ok found, after)) :
    ∃ text asked value, Text.Utf8.decode context.tools.solver.printed = .ok text ∧
      Dependencies.ofText text = .ok found ∧ asked.disk = world.disk ∧
      (ManifestFile.write { app with dependencies := found } layout.manifest).run asked =
        (.ok value, after) := by
  obtain ⟨_, _, hreport, h⟩ := run_bind_eq_ok.1 h
  cases hreport
  obtain ⟨answered, asked, hsolve, h⟩ := run_bind_eq_ok.1 h
  obtain ⟨value, _, hwrite, h⟩ := run_bind_eq_ok.1 h
  cases h
  rw [Solver.run_solve] at hsolve
  obtain ⟨hrefusal, text, hdecode, hfound⟩ := Solver.answered_of_respond hsolve
  refine ⟨text, asked, value, hdecode, hfound, ?_, hwrite⟩
  rw [Solver.respond, hrefusal] at hsolve
  obtain ⟨_, _, haffect, hsolve⟩ := run_bind_eq_ok.1 hsolve
  rw [run_affect, hconfined.solver] at haffect
  cases haffect
  obtain ⟨-, rfl⟩ := run_ofFailure_eq_ok.1 hsolve
  rfl

end Pipeline

end ElmSuite
