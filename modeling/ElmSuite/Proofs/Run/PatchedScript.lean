import ElmSuite.Proofs.Run.KeptScripts

/-!
The compiled runner when node is called.  It is patched right after it is compiled, and no later
stage of a run writes to it, because no link stands in the generated project that could lead there.
-/

namespace ElmSuite

open Act

theorem exists_file_of_readText {disk : Disk} {path : String} {code : List Char}
    (h : disk.readText path = .ok code) (hne : code ≠ []) :
    ∃ location bytes, disk.find path = .ok (location, .file bytes) := by
  unfold Disk.readText Disk.readBytes at h
  cases hfind : disk.find path with
  | error fault =>
      rw [hfind] at h
      cases h
  | ok found =>
      obtain ⟨location, node⟩ := found
      rw [hfind] at h
      cases node with
      | file bytes => exact ⟨location, bytes, rfl⟩
      | folder entries => cases h
      | _ =>
          cases h
          exact absurd (by decide) hne

theorem exists_location_of_readText {disk : Disk} {path : String} {code : List Char}
    (h : disk.readText path = .ok code) : ∃ location node, disk.find path = .ok (location, node) := by
  unfold Disk.readText Disk.readBytes at h
  cases hfind : disk.find path with
  | error fault =>
      rw [hfind] at h
      cases h
  | ok found => exact ⟨found.1, found.2, rfl⟩

theorem tagConstructors_nil (tag : Script.IdentityTag) :
    Script.tagConstructors tag [] = .error (.patternNotFound "the Test variant definitions") := by
  simp [Script.tagConstructors, Script.constructorCount, Script.pieces]

/-- A file that is patched in place holds the patch of the text that it held. -/
theorem Generation.exists_patch_of_patchFile {tag : Script.IdentityTag} {path value : Path}
    {world after : World} (h : (patchFile tag path).run world = (.ok value, after)) :
    ∃ code patched, world.disk.readText path.toString = .ok code ∧
      Script.patch tag code = .ok patched ∧
        ∃ location, after.disk.find path.toString =
          .ok (location, .file (Text.Utf8.encode patched)) := by
  obtain ⟨code, _, hlook, h⟩ := run_bind_eq_ok.1 h
  obtain ⟨hread, rfl⟩ := run_look_eq_ok.1 hlook
  obtain ⟨tagged, _, htagged, h⟩ := run_bind_eq_ok.1 h
  obtain ⟨htag, rfl⟩ := run_ofFailure_eq_ok.1 htagged
  obtain ⟨_, _, hnote, h⟩ := run_bind_eq_ok.1 h
  cases hnote
  obtain ⟨checked, _, hchecked, h⟩ := run_bind_eq_ok.1 h
  obtain ⟨hcheck, rfl⟩ := run_ofFailure_eq_ok.1 hchecked
  obtain ⟨_, _, hchange, h⟩ := run_bind_eq_ok.1 h
  obtain ⟨disk, hwrite, rfl⟩ := run_change_eq_ok.1 hchange
  cases h
  refine ⟨code, Script.allocateSymbol tag checked, hread, ?_, ?_⟩
  · rw [Script.patch, htag, ok_bind, hcheck]
    rfl
  · rcases Disk.writeBytes_eq_ok hwrite with ⟨location, hfind, -⟩ | ⟨-, hnofile⟩
    · exact ⟨location, hfind⟩
    · -- What swallows bytes has no text that the patch fits.
      have hne : code ≠ [] := by
        rintro rfl
        rw [tagConstructors_nil] at htag
        cases htag
      obtain ⟨location, bytes, hfile⟩ := exists_file_of_readText hread hne
      exact absurd hfile (hnofile location bytes)

namespace Pipeline

/-- The compilation of the module that gathers all tests. -/
def runnerCompilation (context : RunContext) (options : RunOptions) (layout : Layout) : Act Unit := do
  Act.report "Compiling the generated templated src/Runner.elm ..."
  compile context options layout layout.runnerScript ["src/Runner.elm"]

theorem compileRunner_eq (context : RunContext) (options : RunOptions) (layout : Layout) :
    compileRunner context options layout =
      runnerCompilation context options layout >>= fun _ =>
        Generation.patchFile context.tag layout.runnerScript := by
  rw [compileRunner, runnerCompilation, bind_assoc]

/-- Wherever the root of a project leads, no link stands at or below `elm-stuff` in it. -/
def NoLinkInside (disk : Disk) (root : Path) : Prop :=
  ∀ folder, Disk.Leads disk [] (Disk.steps root.toString) folder →
    ∀ below target, disk.nodeAt? (folder ++ "elm-stuff" :: below) ≠ some (.link target)

variable {context : RunContext} {options : RunOptions} {root : Path}

/-- A project whose manifest is read has a root that leads to a folder. -/
theorem exists_leads_of_readText {world after : World} {text : List Char} (hroot : root.anchor ≠ .here)
    (h : (ManifestFile.readText (root.child ManifestFile.fileName)).run world = (.ok text, after)) :
    ∃ folder entries, Disk.Leads world.disk [] (root.parts.flatMap Path.named) folder ∧
      world.disk.nodeAt? folder = some (.folder entries) := by
  rw [ManifestFile.readText, run_orElse] at h
  split at h
  · next text between hlook =>
    obtain ⟨hlook, -⟩ := run_look_eq_ok.1 hlook
    obtain ⟨location, node, hfind⟩ := exists_location_of_readText hlook
    have hleads := Disk.leads_of_find hfind
    have hname : ProperName ManifestFile.fileName := by decide
    have hchild : (root.child ManifestFile.fileName).anchor ≠ .here := hroot
    rw [if_pos (Path.isAbsolute_toString hchild), Path.steps_child hroot hname] at hleads
    obtain ⟨folder, hfirst, hrest⟩ := hleads.split
    cases hrest with
    | stay hdot _ _ => exact absurd hdot hname.notHere
    | up hup _ _ => exact absurd hup hname.notAbove
    | down _ _ hnode _ _ =>
        obtain ⟨entries, hfolder, -⟩ := Disk.exists_folder_of_nodeAt?_snoc hnode
        exact ⟨folder, entries, hfirst, hfolder⟩
    | follow _ _ hlink _ =>
        obtain ⟨entries, hfolder, -⟩ := Disk.exists_folder_of_nodeAt?_snoc hlink
        exact ⟨folder, entries, hfirst, hfolder⟩
  · cases h
  · cases h

/-- So has a project whose manifest is synthesized. -/
theorem exists_leads_of_synthesize {world after : World} {found : Findings}
    {value : Findings × Option String} (hroot : root.anchor ≠ .here)
    (h : (perform context options ⟨root, defaultElmVersion⟩ found .synthesize).run world =
      (.ok value, after)) :
    ∃ folder entries, Disk.Leads world.disk [] (root.parts.flatMap Path.named) folder ∧
      world.disk.nodeAt? folder = some (.folder entries) := by
  obtain ⟨_, h, -⟩ := run_map_eq_ok.1 h
  obtain ⟨text, _, hread, -⟩ := run_bind_eq_ok.1 h
  exact exists_leads_of_readText hroot hread

theorem settled_of_noLinkInside {disk : Disk} {folder : List String} {entries : List (String × Node)}
    (hroot : root.anchor ≠ .here)
    (hleads : Disk.Leads disk [] (root.parts.flatMap Path.named) folder)
    (hfolder : disk.nodeAt? folder = some (.folder entries)) (h : NoLinkInside disk root) :
    Settled root folder disk :=
  ⟨hleads, h folder (Disk.leads_steps hroot hleads hfolder)⟩

/-- Nothing is written before the stage that synthesizes the manifest. -/
theorem sameDisk_perform {layout : Layout} {stage : Stage}
    (hstage : stage ∈ [Stage.validateOptions, .discover]) (found : Findings) :
    (perform context options layout found stage).Keeps SameDisk := by
  simp only [List.mem_cons, List.not_mem_nil, or_false] at hstage
  rcases hstage with rfl | rfl
  · exact .map (tolerant_sameDisk.result fun _ => rfl) _
  · exact .map (Discovery.keeps_collect tolerant_sameDisk _ _) _

section Supervise

variable {start : World} {visit : Visit}
  (hroot : root.anchor ≠ .here)
  (hvisit : visit ∈ visits context options ⟨root, defaultElmVersion⟩ Stage.all {} start)
  (hstage : visit.stage = .supervise)
include hroot hvisit hstage

/-- The root of a project whose run calls node leads to a folder from the start. -/
theorem exists_leads_of_supervise :
    ∃ folder entries, Disk.Leads start.disk [] (root.parts.flatMap Path.named) folder ∧
      start.disk.nodeAt? folder = some (.folder entries) := by
  obtain ⟨found, world, outcomes, hfirst, hvisit⟩ :=
    exists_course_of_mem_visits (show visit ∈ visits context options ⟨root, defaultElmVersion⟩
      ([.validateOptions, .discover] ++ Stage.all.drop 2) {} start from hvisit)
      (by rw [hstage]; decide)
  -- Nothing is written before the manifest of the project is read.
  have hsame : SameDisk start world := by
    exact hfirst.keeps tolerant_sameDisk.toLasting (fun _ hmem found => sameDisk_perform hmem found) rfl
  obtain ⟨found', world', outcomes', hsynthesize, -⟩ :=
    exists_course_of_mem_visits (show visit ∈ visits context options ⟨root, defaultElmVersion⟩
      ([.synthesize] ++ Stage.all.drop 3) found world from hvisit) (by rw [hstage]; decide)
  obtain ⟨detail, hrun⟩ := hsynthesize.exists_perform
  obtain ⟨folder, entries, hleads, hfolder⟩ := exists_leads_of_synthesize hroot hrun
  rw [show world.disk = start.disk from hsame] at hleads hfolder
  exact ⟨folder, entries, hleads, hfolder⟩

/-- When node is called, the compiled runner is the patch of what was there right after it was
compiled. -/
theorem exists_patch_of_supervise (hlink : NoLinkInside start.disk root)
    (hquiet : context.tools.Quiet) :
    ∃ compilation ∈ visits context options ⟨root, defaultElmVersion⟩ Stage.all {} start,
      compilation.stage = .compileRunner ∧ ∃ compiled code patched,
        (runnerCompilation context options ⟨root, defaultElmVersion⟩).run compilation.world =
          (.ok (), compiled) ∧
        compiled.disk.readText (Layout.mk root defaultElmVersion).runnerScript.toString = .ok code ∧
        Script.patch context.tag code = .ok patched ∧
        visit.world.disk.readBytes (Layout.mk root defaultElmVersion).runnerScript.toString =
          .ok (Text.Utf8.encode patched) := by
  obtain ⟨folder, entries, hleads, hfolder⟩ := exists_leads_of_supervise hroot hvisit hstage
  have hsettled := settled_of_noLinkInside hroot hleads hfolder hlink
  obtain ⟨found, world, outcomes, hbefore, hvisit⟩ :=
    exists_course_of_mem_visits (show visit ∈ visits context options ⟨root, defaultElmVersion⟩
      (Stage.all.take 7 ++ Stage.all.drop 7) {} start from hvisit) (by rw [hstage]; decide)
  obtain ⟨next, patchedWorld, outcomes', hcompile, hvisit⟩ :=
    exists_course_of_mem_visits (show visit ∈ visits context options ⟨root, defaultElmVersion⟩
      ([.compileRunner] ++ Stage.all.drop 8) found world from hvisit) (by rw [hstage]; decide)
  obtain ⟨detail, hrun⟩ := hcompile.exists_perform
  obtain ⟨_, hcompileRunner, -⟩ := run_map_eq_ok.1 hrun
  rw [compileRunner_eq] at hcompileRunner
  obtain ⟨_, compiled, hcompilation, hpatch⟩ := run_bind_eq_ok.1 hcompileRunner
  obtain ⟨code, patched, hread, hpatched, location, hfind⟩ :=
    Generation.exists_patch_of_patchFile hpatch
  have hsettled' : Settled root folder patchedWorld.disk :=
    hsettled.grow ((hbefore.enlarges hquiet).trans (hcompile.enlarges hquiet))
  rw [hsettled'.location_script hroot (by decide) hfind] at hfind
  -- From here on the file stays as it is patched.
  obtain ⟨last, lastWorld, outcomes'', hafter, hvisit⟩ :=
    exists_course_of_mem_visits (show visit ∈ visits context options ⟨root, defaultElmVersion⟩
      ([.generateNodeRunner, .compileReporter, .generateSupervisor] ++ [.supervise])
      next patchedWorld from hvisit) (by rw [hstage]; decide)
  rw [mem_visits_singleton] at hvisit
  subst hvisit
  have hbytes := hafter.readBytes_script hroot hquiet hsettled' (by decide) hfind
  refine ⟨⟨.compileRunner, found, world⟩, ?_, rfl, compiled, code, patched, hcompilation, hread,
    hpatched, hbytes⟩
  rw [show Stage.all = Stage.all.take 7 ++ Stage.all.drop 7 by decide,
    hbefore.visits_append rfl (Stage.all.drop 7)]
  exact List.mem_append_right _ List.mem_cons_self

end Supervise

end Pipeline

end ElmSuite
