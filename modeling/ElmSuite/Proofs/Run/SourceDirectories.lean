import ElmSuite.Proofs.Disk.Denotation
import ElmSuite.Proofs.Elm.ModuleName
import ElmSuite.Proofs.Run.Reported

/-!
The source directories of a generated project.  Those of the host are seen from the folder that the
generated project is put into, wherever links on the way to it lead, so each of them still denotes the
directory that it denoted; and a test module is found where its name says, below one of them.
-/

namespace ElmSuite

open Act

/-- Every member of the second list is in the relation to one of the first. -/
theorem exists_mem_left {α β : Type} {R : α → β → Prop} {items : List α} {values : List β}
    (h : List.Forall₂ R items values) : ∀ value ∈ values, ∃ item ∈ items, R item value := by
  induction h with
  | nil => simp
  | cons hfirst _ ih =>
      refine List.forall_mem_cons.2 ⟨⟨_, List.mem_cons_self, hfirst⟩, fun value hvalue => ?_⟩
      obtain ⟨item, hitem, hrel⟩ := ih value hvalue
      exact ⟨item, List.mem_cons_of_mem _ hitem, hrel⟩

/-- Values that a list of actions gives are those of its members, in order. -/
theorem Act.forall₂_run_of_mapM {α β : Type} {relation : World → World → Prop}
    (hrel : Lasting relation) {f : α → Act β} (hf : ∀ item, (f item).Keeps relation) {items : List α}
    {values : List β} {world after : World} (h : (items.mapM f).run world = (.ok values, after)) :
    List.Forall₂ (fun item value => ∃ before later, relation world before ∧
      (f item).run before = (.ok value, later)) items values := by
  induction items generalizing world values with
  | nil =>
      cases h
      exact .nil
  | cons item rest ih =>
      rw [List.mapM_cons] at h
      obtain ⟨first, between, hfirst, h⟩ := run_bind_eq_ok.1 h
      obtain ⟨others, _, hothers, h⟩ := run_bind_eq_ok.1 h
      cases h
      refine .cons ⟨world, between, hrel.refl world, hfirst⟩ ((ih hothers).imp ?_)
      rintro other value ⟨before, later, hbefore, hrun⟩
      exact ⟨before, later, hrel.trans ((hf item).of_run hfirst) hbefore, hrun⟩

namespace Synthesis

/-- A source directory is found where its text is located, if that is a folder. -/
theorem sourceDirectory_eq_ok {root found : Path} {directory : Codes} {world after : World}
    (h : (sourceDirectory root directory).run world = (.ok found, after)) :
    world.disk.locate (root.join (.ofString directory.lossy)) = .ok found ∧
      world.disk.isFolder found.toString = true := by
  obtain ⟨asked, _, hpath, h⟩ := run_bind_eq_ok.1 h
  obtain ⟨hpath, rfl⟩ := run_ofFault_eq_ok.1 hpath
  obtain ⟨path, between, hlocate, h⟩ := run_bind_eq_ok.1 h
  have hasked : asked = root.join (.ofString directory.lossy) := by
    unfold pathOf at hpath
    split at hpath
    · cases hpath
    · cases hpath
      rfl
  rw [run_orElse] at hlocate
  split at hlocate
  · next hlook =>
    cases hlocate
    obtain ⟨hfound, rfl⟩ := run_look_eq_ok.1 hlook
    obtain ⟨disk, _, hdisk, h⟩ := run_bind_eq_ok.1 h
    cases hdisk
    split at h
    · next hfolder =>
      cases h
      exact ⟨hasked ▸ hfound, hfolder⟩
    · cases h
  · cases hlocate
  · cases hlocate

theorem sourceDirectories_eq_ok {directories : List Codes} {root : Path} {found : List Path}
    {world after : World} (h : (sourceDirectories directories root).run world = (.ok found, after)) :
    ∃ located, List.Forall₂ (fun directory path =>
        world.disk.locate (root.join (.ofString directory.lossy)) = .ok path ∧
          world.disk.isFolder path.toString = true) (directories ++ [testsDirectory]) located ∧
      found = located.eraseDups := by
  obtain ⟨located, _, hlocated, h⟩ := run_bind_eq_ok.1 h
  cases h
  refine ⟨located, (forall₂_run_of_mapM tolerant_sameDisk.toLasting
    (keeps_sourceDirectory tolerant_sameDisk root) hlocated).imp ?_, rfl⟩
  rintro directory path ⟨before, later, hbefore, hrun⟩
  rw [← show before.disk = world.disk from hbefore]
  exact sourceDirectory_eq_ok hrun

end Synthesis

/-- A canonical path of a folder is its location. -/
theorem Disk.exists_folder_of_locate {disk : Disk} (hdisk : disk.WellFormed) {path found : Path}
    (hlocate : disk.locate path = .ok found) (hfolder : disk.isFolder found.toString = true) :
    ∃ location inside, found = .ofLocation location ∧ (∀ name ∈ location, ProperName name) ∧
      disk.nodeAt? location = some (.folder inside) := by
  obtain ⟨location, rfl, hstands⟩ := stands_of_locate hdisk hlocate
  have hproper : ∀ name ∈ location, ProperName name := by
    obtain ⟨node, hnode, -⟩ := hstands
    exact hdisk.proper.of_nodeAt? hnode
  obtain ⟨-, inside, hnode⟩ :=
    (isFolder_iff (Path.spells_ofLocation hproper) hproper hstands.noLinkOn).1 hfolder
  exact ⟨location, inside, rfl, hproper, hnode⟩

/-- How the source directories of a generated project come about.  The host project is in the folder
`project` and its manifest says `host`; the generated project is in the folder `generated` when its
manifest is written. -/
structure Rebased (context : RunContext) (layout : Layout) (before made : Disk) (host : Manifest)
    (synthesis : Synthesis) (project generated entries : List String) : Prop where
  read : ∃ text path, before.readText (layout.projectRoot.child ManifestFile.fileName).toString = .ok text ∧
    Manifest.ofText text path = .ok host
  projectLeads : Disk.Leads before [] (Disk.steps layout.projectRoot.toString) project
  generatedLeads : Disk.Leads made [] (Disk.steps layout.root.toString) generated
  /-- The canonical directories are those of the host and that of the tests, each once and in order of
  their first occurrence. -/
  denoted : ∃ located, List.Forall₂ (fun directory path =>
      ∀ goal, before.Denotes project directory.lossy goal → path = .ofLocation goal)
    (host.toApplication.sourceDirectories ++ [Synthesis.testsDirectory]) located ∧
      synthesis.directories = located.eraseDups
  distinct : synthesis.directories.Nodup
  listed : synthesis.app.sourceDirectories =
    (entries ++ ["src", context.installation.helperSources.toString]).map Codes.ofString
  /-- The relative entries denote the canonical directories, one by one. -/
  relative : List.Forall₂ (fun entry path => entry ≠ "" ∧ ∃ location inside,
      path = .ofLocation location ∧ made.nodeAt? location = some (.folder inside) ∧
        made.Denotes generated entry location) entries synthesis.directories

/-- A module whose file has the suffix of source files is found below one of the entries, under its
name, also when more is on disk. -/
def Locates (made : Disk) (generated entries : List String) (m : TestModule) : Prop :=
  Elm.sourceSuffix.toList <:+ m.path.name.toList →
    ∃ entry ∈ entries, ∀ later, made.Retains (fun _ => False) later →
      ∃ location bytes, later.find m.path.toString = .ok (location, .file bytes) ∧
        later.Denotes generated (entry ++ "/" ++ Elm.modulePath m.name) location

/-- A path that denotes a file does so as long as all is retained. -/
theorem Disk.find_file_retain {spared : List String → Prop} {before after : Disk} {path : String}
    {location : List String} {bytes : List UInt8} (hkept : before.Retains spared after)
    (h : before.find path = .ok (location, .file bytes)) :
    ∃ later, after.find path = .ok (location, .file later) := by
  obtain ⟨node, hnode, hfind⟩ := find_retain hkept h
  obtain ⟨later, hlater, halike, -⟩ := hkept.kept _ _ (nodeAt?_of_find_eq h)
  rw [hnode, Option.some.injEq] at hlater
  subst hlater
  cases halike
  exact ⟨_, hfind⟩

/-- Every module that has a name is found below an entry. -/
theorem Rebased.locates {context : RunContext} {layout : Layout} {before made : Disk} {host : Manifest}
    {synthesis : Synthesis} {project generated entries : List String}
    (h : Rebased context layout before made host synthesis project generated entries)
    (hdisk : before.WellFormed) (hgrows : before.Grows (fun _ => False) made) {m : TestModule}
    (hfile : Discovery.IsCanonical before m.path)
    (hname : Elm.moduleNameOf synthesis.directories m.path = .ok m.name) :
    Locates made generated entries m := by
  intro hsuffix
  obtain ⟨text, hlocate⟩ := hfile.located
  obtain ⟨names, hpath, hstands⟩ := Disk.stands_of_locate hdisk hlocate
  have hproper : ∀ name ∈ names, ProperName name := by
    obtain ⟨node, hnode, -⟩ := hstands
    exact hdisk.proper.of_nodeAt? hnode
  obtain ⟨bytes, hfind⟩ : ∃ bytes, before.find m.path.toString = .ok (names, .file bytes) := by
    have hisFile := hfile.isFile
    unfold Disk.isFile at hisFile
    split at hisFile
    · next location node hfind =>
      rw [hpath] at hfind ⊢
      obtain ⟨-, rfl, -⟩ := Disk.nodeAt?_of_find (Path.spells_ofLocation hproper) hproper
        hstands.noLinkOn hfind
      cases node with
      | file bytes => exact ⟨bytes, hfind⟩
      | _ => cases hisFile
    · cases hisFile
  obtain ⟨root, hroot, parts, -, hparts, hne, hway⟩ := Elm.exists_parts_of_moduleNameOf hname hsuffix
  obtain ⟨entry, hentry, hempty, place, inside, rfl, -, hdenotes⟩ := exists_mem_left h.relative root hroot
  have hnames : names = place ++ parts := by
    rw [hpath] at hparts
    exact hparts
  subst hnames
  refine ⟨entry, hentry, fun later hkept => ?_⟩
  obtain ⟨_, hmade⟩ := Disk.find_file_retain hgrows.toRetains hfind
  obtain ⟨last, hlater⟩ := Disk.find_file_retain hkept hmade
  refine ⟨place ++ parts, last, hlater, ?_⟩
  rw [← hway]
  have hbelow : ∀ name ∈ parts, ProperName name := fun name hname =>
    hproper name (List.mem_append_right place hname)
  have hleads := ((hstands.retain hgrows.toRetains).retain hkept).leads hbelow
  exact Disk.Denotes.append (Disk.Leads.retain hdenotes hkept) hempty hbelow hne hleads

namespace Pipeline

/-- A run rebases the source directories of the host when it synthesizes a manifest, and finds its test
modules below them. -/
def RebasesSources (context : RunContext) (options : RunOptions) (layout : Layout) (start : World) :
    Prop :=
  ∃ host synthesis made project generated entries,
    (∃ visit ∈ visits context options layout Stage.all {} start, visit.stage = .synthesize ∧
      (synthesize context layout).run visit.world = (.ok synthesis, made)) ∧
    Rebased context layout start.disk made.disk host synthesis project generated entries ∧
    ∀ visit ∈ visits context options layout Stage.all {} start, visit.stage = .findTests →
      ∀ next detail after,
        (perform context options layout visit.found .findTests).run visit.world =
          (.ok (next, detail), after) → ∀ m ∈ next.modules, Locates made.disk generated entries m

variable {context : RunContext} {options : RunOptions} {root : Path}

/-- A path that is written to leads somewhere. -/
theorem exists_find_of_writeBytes {disk after : Disk} {path : String} {bytes : List UInt8}
    (h : disk.writeBytes path bytes = .ok after) :
    ∃ location node, after.find path = .ok (location, node) := by
  rcases Disk.writeBytes_eq_ok h with ⟨location, hfind, -⟩ | ⟨hsame, hnofile⟩
  · exact ⟨location, _, hfind⟩
  · obtain ⟨location, node, hfind, -⟩ := Disk.exists_swallower h fun location hfind =>
      hnofile location bytes (hsame ▸ hfind)
    exact ⟨location, node, hsame ▸ hfind⟩

/-- The generated project has a folder when its manifest is written. -/
theorem exists_generated_of_write (hroot : root.anchor ≠ .here) {app : Application} {value : Path}
    {world after : World}
    (h : (ManifestFile.write app (Layout.mk root defaultElmVersion).manifest).run world =
      (.ok value, after)) :
    ∃ generated inside, after.disk.nodeAt? generated = some (.folder inside) ∧
      Disk.Leads after.disk [] (root.parts.flatMap Path.named ++ ["elm-stuff", "tests-0.19.1"])
        generated := by
  obtain ⟨text, made, -, -, hwrite⟩ := ManifestFile.exists_write_of_write h
  obtain ⟨location, node, hfind⟩ := exists_find_of_writeBytes hwrite
  have hleads := Disk.leads_of_find hfind
  rw [if_pos (isAbsolute_manifest hroot), steps_manifest hroot, show manifestNames =
    ["elm-stuff", "tests-0.19.1"] ++ ["elm.json"] from rfl, ← List.append_assoc] at hleads
  obtain ⟨generated, hfirst, hlast⟩ := hleads.split
  cases hlast with
  | stay hdot _ _ => exact absurd hdot (by decide)
  | up hup _ _ => exact absurd hup (by decide)
  | down _ _ hnode _ _ =>
      obtain ⟨inside, hfolder, -⟩ := Disk.exists_folder_of_nodeAt?_snoc hnode
      exact ⟨generated, inside, hfolder, hfirst⟩
  | follow _ _ hlink _ =>
      obtain ⟨inside, hfolder, -⟩ := Disk.exists_folder_of_nodeAt?_snoc hlink
      exact ⟨generated, inside, hfolder, hfirst⟩

section Synthesize

variable {found next : Findings} {detail : Option String} {world after : World}

theorem grows_of_synthesize {layout : Layout}
    (h : (perform context options layout found .synthesize).run world = (.ok (next, detail), after)) :
    world.disk.Grows (fun _ => False) after.disk :=
  (Keeps.map (keeps_synthesize permissive_enlarges context trivial trivial trivial trivial) _).of_run h

/-- A synthesis rebases the source directories of the host; each of them is a folder that was there. -/
theorem exists_rebased_of_synthesize (hroot : root.anchor ≠ .here)
    (hparts : ∀ part ∈ root.parts, Path.IsPart part) (hdisk : world.disk.WellFormed)
    (hreach : world.disk.LinksInReach)
    (h : (perform context options ⟨root, defaultElmVersion⟩ found .synthesize).run world =
      (.ok (next, detail), after)) :
    ∃ host project generated entries,
      Rebased context ⟨root, defaultElmVersion⟩ world.disk after.disk host next.synthesis project generated
        entries := by
  have hgrows := grows_of_synthesize h
  obtain ⟨project, outside, hleads, hfolder⟩ := exists_leads_of_synthesize hroot h
  obtain ⟨text, between, made, value, hread, hofText, -, hwrite⟩ :=
    exists_steps_of_synthesize (synthesis_of_synthesize h).1
  obtain ⟨-, projectRoot, location, host, hproject, hlocation, hhost, hdirectories, happ⟩ :=
    Synthesis.exists_host_of_ofText hofText
  obtain ⟨located, hlocated, hfound⟩ := Synthesis.sourceDirectories_eq_ok hdirectories
  obtain ⟨generated, inside, hinside, hway⟩ := exists_generated_of_write hroot hwrite
  have hflat : root.parts.flatMap Path.named = root.parts :=
    Path.flatMap_named fun part hpart =>
      Path.named_of_not_slash (hparts part hpart).nonempty (hparts part hpart).noSlash
  have hprojectRoot : projectRoot = .ofLocation project :=
    Disk.locateLeniently_of_leads hdisk.proper hreach (.refl (fun _ => False) world.disk) hroot hparts
      (hflat ▸ hleads) hproject
  have hlayout : (Layout.mk root defaultElmVersion).root.anchor ≠ .here := by
    rw [root_eq]
    exact hroot
  have hinner : ∀ part ∈ (Layout.mk root defaultElmVersion).root.parts, Path.IsPart part := by
    rw [root_eq]
    intro part hpart
    rcases List.mem_append.1 hpart with hpart | hpart
    · exact hparts part hpart
    · exact Path.isPart_of_properName
        ((by decide : ∀ name ∈ ["elm-stuff", "tests-0.19.1"], ProperName name) part hpart)
  have hgenerated : location = .ofLocation generated := by
    rw [Path.join, if_neg hlayout] at hlocation
    refine Disk.locateLeniently_of_leads hdisk.proper hreach hgrows hlayout hinner ?_ hlocation
    rw [root_eq, ← hflat]
    exact hway
  have hnoAbove : ".." ∉ generated := by
    rw [hflat] at hway
    obtain ⟨_, hcrosses⟩ := hway.exists_crosses fun hmem => by
      rcases List.mem_append.1 hmem with hmem | hmem
      · exact (hparts "" hmem).nonempty rfl
      · exact absurd hmem (by decide)
    exact hcrosses.noAbove List.not_mem_nil
  have hfolders : ∀ path ∈ next.synthesis.directories, ∃ place inner, path = .ofLocation place ∧
      (∀ name ∈ place, ProperName name) ∧ world.disk.nodeAt? place = some (.folder inner) := by
    intro path hpath
    rw [hfound, List.mem_eraseDups] at hpath
    obtain ⟨_, -, hlocate, hfolder⟩ := exists_mem_left hlocated path hpath
    exact Disk.exists_folder_of_locate hdisk hlocate hfolder
  refine ⟨host, project, generated, next.synthesis.directories.map fun path => Path.way generated path.parts,
    ⟨text, _, hread, hhost⟩, Disk.leads_steps hroot hleads hfolder, ?_, ⟨located, ?_, hfound⟩, ?_, ?_, ?_⟩
  · refine Disk.leads_steps hlayout ?_ hinside
    rw [Path.flatMap_named fun part hpart => Path.named_of_not_slash (hinner part hpart).nonempty
      (hinner part hpart).noSlash, root_eq, ← hflat]
    exact hway
  · refine hlocated.imp fun directory path hboth goal hdenotes => ?_
    rw [hprojectRoot] at hboth
    exact Disk.locate_of_denotes hdisk.proper (Disk.stands_of_folder hfolder) hdenotes hboth.1
  · rw [hfound]
    exact nodup_eraseDups _
  · rw [happ, hgenerated]
    have hentries : Synthesis.relativeTo world.disk (.ofLocation generated) next.synthesis.directories =
        next.synthesis.directories.map fun path => Path.way generated path.parts := by
      refine List.map_congr_left fun path hpath => ?_
      obtain ⟨place, inner, rfl, hproper, -⟩ := hfolders path hpath
      rw [Disk.namesFrom_ofLocation hnoAbove,
        Disk.namesFrom_ofLocation fun hmem => (hproper _ hmem).notAbove rfl]
      rfl
    rw [← hentries]
    rfl
  · refine List.forall₂_map_left_iff.2 (List.forall₂_same.2 fun path hpath => ?_)
    obtain ⟨place, inner, rfl, hproper, hnode⟩ := hfolders path hpath
    obtain ⟨later, hlater⟩ := hgrows.toRetains.folder hnode
    exact ⟨Disk.way_ne_empty hproper, place, later, rfl, hlater,
      Disk.denotes_way hinside (Disk.stands_of_folder hlater) hproper⟩

end Synthesize

/-- A course that passes the synthesis rebases the source directories, and finds its modules there. -/
theorem Course.exists_rebased {start final : World} {ending : Except Interruption Findings}
    {outcomes : List Outcome} {outcome : Outcome} (hroot : root.anchor ≠ .here)
    (hparts : ∀ part ∈ root.parts, Path.IsPart part) (hdisk : start.disk.WellFormed)
    (hreach : start.disk.LinksInReach)
    (h : Course context options ⟨root, defaultElmVersion⟩ Stage.all {} start ending final outcomes)
    (hmem : outcome ∈ outcomes) (hstage : outcome.stage = .synthesize) (hok : outcome.ok = true) :
    RebasesSources context options ⟨root, defaultElmVersion⟩ start := by
  have hnext {stage : Stage} (hne : stage ≠ .synthesize) : stage ≠ outcome.stage := hstage ▸ hne
  obtain ⟨found₁, _, world₁, _, hrun₁, hcourse, hmem⟩ := h.head_passed hmem hok
  obtain ⟨found₂, _, world₂, _, hrun₂, hcourse, hmem⟩ := hcourse.head_passed (hmem (hnext (by decide))) hok
  obtain ⟨found₃, _, world₃, _, hrun₃, -, -⟩ := hcourse.head_passed (hmem (hnext (by decide))) hok
  have hvisits : visits context options ⟨root, defaultElmVersion⟩ Stage.all {} start =
      [⟨.validateOptions, {}, start⟩, ⟨.discover, found₁, world₁⟩, ⟨.synthesize, found₂, world₂⟩] ++
        visits context options ⟨root, defaultElmVersion⟩ (Stage.all.drop 3) found₃ world₃ := by
    rw [Stage.all, visits_cons hrun₁, visits_cons hrun₂, visits_cons hrun₃]
    rfl
  have hdisk₁ : world₁.disk = start.disk := (sameDisk_perform (by decide) _).of_run hrun₁
  have hdisk₂ : world₂.disk = start.disk := ((sameDisk_perform (by decide) _).of_run hrun₂).trans hdisk₁
  have hgrows := grows_of_synthesize hrun₃
  obtain ⟨hsynthesize, hfiles⟩ := synthesis_of_synthesize hrun₃
  unfold RebasesSources
  rw [← hdisk₂] at hdisk hreach ⊢
  obtain ⟨host, project, generated, entries, hrebased⟩ :=
    exists_rebased_of_synthesize hroot hparts hdisk hreach hrun₃
  refine ⟨host, found₃.synthesis, world₃, project, generated, entries,
    ⟨⟨.synthesize, found₂, world₂⟩, ?_, rfl, hsynthesize⟩, hrebased, ?_⟩
  · rw [hvisits]
    exact List.mem_append_left _ (by simp)
  intro visit hvisit hfind next detail after hrun m hm
  rw [hvisits] at hvisit
  rcases List.mem_append.1 hvisit with hvisit | hvisit
  · simp only [List.mem_cons, List.not_mem_nil, or_false] at hvisit
    rcases hvisit with rfl | rfl | rfl <;> cases hfind
  -- The files and the directories are passed on as they are found.
  obtain ⟨_, -, hsame, hdirectories⟩ := forall_visits
    (P := fun _ found _ => found.files = found₂.files ∧ found.synthesis = found₃.synthesis)
    (fun stage rest found world next detail between hsuffix hsame hrun => by
      have hlater : stage ∈ Stage.all.drop 3 := hsuffix.subset List.mem_cons_self
      rw [files_of_perform (by rintro rfl; revert hlater; decide) hrun,
        synthesis_of_perform (by rintro rfl; revert hlater; decide) hrun]
      exact hsame) ⟨hfiles, rfl⟩ visit hvisit
  obtain ⟨hpaths, hmodules⟩ := findTests_eq_ok (modules_of_findTests hrun)
  have hmem : m.path ∈ found₂.files := by
    rw [← hsame, ← (sortPaths_perm visit.found.files).mem_iff, ← hpaths]
    exact List.mem_map_of_mem hm
  obtain ⟨-, between, hcandidates⟩ := Discovery.candidates_of_collect (files_of_discover hrun₂)
  have hcanonical := Discovery.isCanonical_of_candidates hcandidates m.path hmem
  rw [hdisk₁, ← hdisk₂] at hcanonical
  exact hrebased.locates hdisk hgrows hcanonical (hdirectories ▸ (hmodules m hm).1)

/-- A run that gets past the synthesis rebases the source directories of the host, and finds its test
modules below them. -/
theorem stages_rebased {given : String} {canonical : Path} {start : World}
    {ending : Except Interruption Int} {state : RunState} {outcome : Outcome}
    (hdisk : start.disk.WellFormed) (hreach : start.disk.LinksInReach)
    (hlocate : start.disk.locateLeniently (.ofString given) = .ok canonical)
    (hrun : (stages context options ⟨canonical, defaultElmVersion⟩).run ⟨start, []⟩ = (ending, state))
    (hmem : outcome ∈ state.outcomes) (hstage : outcome.stage = .synthesize)
    (hok : outcome.ok = true) :
    RebasesSources context options ⟨canonical, defaultElmVersion⟩ start := by
  have hcwd : ∀ part ∈ start.disk.cwd, Path.IsPart part := by
    obtain ⟨entries, hfolder⟩ := hdisk.cwd
    exact fun part hpart => Path.isPart_of_properName (hdisk.proper.of_nodeAt? hfolder part hpart)
  rw [stages_eq, run_map_running] at hrun
  rcases hall : (performAll context options ⟨canonical, defaultElmVersion⟩ Stage.all {}).run ⟨start, []⟩
    with ⟨result, last⟩
  rw [hall] at hrun
  obtain ⟨-, rfl⟩ := Prod.mk.inj hrun
  obtain ⟨outcomes, houtcomes, hcourse⟩ := course_of_performAll hall
  rw [houtcomes, List.nil_append] at hmem
  exact hcourse.exists_rebased (anchor_of_locateLeniently hlocate)
    (Disk.isPart_of_locateLeniently hcwd hlocate) hdisk hreach hmem hstage hok

/-- A run whose compiler leaves nothing has found its one module where the source directories say. -/
theorem stages_rebased_of_empty_output :
    ∃ ending state, (stages (smallContext 0) {} ⟨.ofString "/p", defaultElmVersion⟩).run
        ⟨⟨smallProject, [], []⟩, []⟩ = (ending, state) ∧
      (state.outcomes.map fun outcome => (outcome.stage, outcome.ok)) =
        (Stage.all.take 7).map (·, true) ++ [(.compileRunner, false)] ∧
      RebasesSources (smallContext 0) {} ⟨.ofString "/p", defaultElmVersion⟩ ⟨smallProject, [], []⟩ := by
  have hdisk : smallProject.WellFormed :=
    ⟨Disk.properNames_of_tree (by decide +kernel), ⟨_, rfl⟩⟩
  have hreach : smallProject.LinksInReach := fun location target hlink =>
    absurd hlink (Node.at?_ne_link (by decide +kernel) location target)
  have hlocate : smallProject.locateLeniently (.ofString "/p") = .ok (.ofString "/p") := by
    decide +kernel
  have houtcomes : (((stages (smallContext 0) {} ⟨.ofString "/p", defaultElmVersion⟩).run
      ⟨⟨smallProject, [], []⟩, []⟩).2.outcomes.map fun outcome => (outcome.stage, outcome.ok)) =
        (Stage.all.take 7).map (·, true) ++ [(.compileRunner, false)] := by
    decide +kernel
  rcases hrun : (stages (smallContext 0) {} ⟨.ofString "/p", defaultElmVersion⟩).run
    ⟨⟨smallProject, [], []⟩, []⟩ with ⟨ending, state⟩
  rw [hrun] at houtcomes
  have hmem : (Stage.synthesize, true) ∈
      state.outcomes.map fun outcome => (outcome.stage, outcome.ok) := by
    rw [houtcomes]
    decide
  obtain ⟨outcome, hmem, heq⟩ := List.mem_map.1 hmem
  obtain ⟨hstage, hok⟩ := Prod.mk.inj heq
  exact ⟨ending, state, rfl, houtcomes, stages_rebased hdisk hreach hlocate hrun hmem hstage hok⟩

end Pipeline

end ElmSuite
