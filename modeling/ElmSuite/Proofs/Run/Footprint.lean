import ElmSuite.Proofs.Disk.Footprint
import ElmSuite.Proofs.Run.GuardedManifest
import ElmSuite.Proofs.Run.Reported

/-!
What a run changes on disk.  As long as no link stands in the generated project and tools write only
what they are told, a run makes four folders and writes six files there, and leaves everything else as
it is.  A run that does not get to its generated project changes nothing.
-/

namespace ElmSuite

open Act Path

/-- The folders of the generated project in a folder. -/
def generatedFolders (folder : List String) : List (List String) :=
  [ folder ++ ["elm-stuff"]
  , folder ++ ["elm-stuff", "tests-0.19.1"]
  , folder ++ ["elm-stuff", "tests-0.19.1", "src"]
  , folder ++ ["elm-stuff", "tests-0.19.1", "js"] ]

/-- The files of the generated project in a folder. -/
def generatedFiles (folder : List String) : List (List String) :=
  [ folder ++ ["elm-stuff", "tests-0.19.1", "elm.json"]
  , folder ++ ["elm-stuff", "tests-0.19.1", "src", "Runner.elm"]
  , folder ++ ["elm-stuff", "tests-0.19.1", "js", "Runner.elm.js"]
  , folder ++ ["elm-stuff", "tests-0.19.1", "js", "node_runner.js"]
  , folder ++ ["elm-stuff", "tests-0.19.1", "js", "Reporter.elm.js"]
  , folder ++ ["elm-stuff", "tests-0.19.1", "js", "node_supervisor.js"] ]

/-- The root of a project leads to a folder, no link stands at or below `elm-stuff` in it, and none at
the output of compilations that only check their sources. -/
structure Grounded (root : Path) (folder : List String) (disk : Disk) : Prop
    extends Settled root folder disk where
  isFolder : ∃ entries, disk.nodeAt? folder = some (.folder entries)
  noOutput : disk.NoLinkOn ["dev", "null"]

/-- Where a run may make a folder. -/
def MayMake (folder location : List String) : Prop :=
  location = ["dev"] ∨ location ∈ generatedFolders folder

/-- Where a run may write a file. -/
def MayWrite (folder location : List String) : Prop :=
  location = ["dev", "null"] ∨ location ∈ generatedFiles folder

variable {root : Path} {folder location : List String} {before after disk : Disk} {node : Node}

theorem Grounded.grow {spared : List String → Prop} (h : Grounded root folder before)
    (hgrows : before.Grows spared after) : Grounded root folder after where
  toSettled := h.toSettled.grow hgrows
  isFolder := by
    obtain ⟨entries, hfolder⟩ := h.isFolder
    exact hgrows.toRetains.folder hfolder
  noOutput count target hlink := h.noOutput count target (hgrows.links _ target hlink)

/-- In a grounded project, only what a run may change is changed. -/
def Footprint (root : Path) (folder : List String) (before after : World) : Prop :=
  Grounded root folder before.disk → before.disk.Touches (MayMake folder) (MayWrite folder) after.disk

/-- Making the folders of a path changes only what a run may change. -/
def Makable (root : Path) (folder : List String) (path : Path) : Prop :=
  ∀ disk, Grounded root folder disk →
    disk.Touches (MayMake folder) (MayWrite folder) (Disk.makeFolders path disk).2

/-- A path denotes a file only where a run may write one. -/
def Writable (root : Path) (folder : List String) (text : String) : Prop :=
  ∀ disk location node, Grounded root folder disk → disk.find text = .ok (location, node) →
    MayWrite folder location

theorem permissive_footprint (root : Path) (folder : List String) :
    Permissive (Footprint root folder) (Makable root folder) (Writable root folder) where
  refl world _ := .refl world.disk
  trans hfirst hsecond hgrounded := by
    have htouches := hfirst hgrounded
    exact htouches.trans (hsecond (hgrounded.grow htouches.toGrows))
  lines world _ _ := .refl world.disk
  folders world _ hpath hgrounded := hpath world.disk hgrounded
  files world path bytes disk hpath hdisk hgrounded := by
    rcases Disk.writeBytes_touches hdisk with rfl | ⟨location, hfind, htouches⟩
    · exact .refl _
    · have hmay := hpath disk location _ (hgrounded.grow htouches.toGrows) hfind
      refine htouches.mono (fun _ hfalse => hfalse.elim) ?_
      rintro other rfl
      exact hmay

/-! ### The paths of the generated project -/

theorem Grounded.tree_eq (h : Grounded root folder disk) :
    ∃ entries, disk.nodeAt? [] = some (.folder entries) := by
  obtain ⟨entries, hfolder⟩ := h.isFolder
  by_cases hempty : folder = []
  · exact ⟨entries, hempty ▸ hfolder⟩
  · rw [← List.nil_append folder] at hfolder
    exact Disk.exists_folder_of_append hfolder hempty

/-- Folders along names in the generated project can be made. -/
theorem makable_along {anchor : Anchor} {parts rest : List String} (hanchor : anchor ≠ .here)
    (hway : ∀ disk, Grounded root folder disk → Disk.Leads disk [] (parts.flatMap named) folder)
    (hnames : ∀ name ∈ "elm-stuff" :: rest, ProperName name)
    (hmay : ∀ location, Disk.Along folder ("elm-stuff" :: rest) location →
      location ∈ generatedFolders folder) :
    Makable root folder ⟨anchor, parts ++ "elm-stuff" :: rest⟩ := by
  intro disk hgrounded
  obtain ⟨entries, hfolder⟩ := hgrounded.isFolder
  have htouches := Disk.makeFoldersUpTo_touches hanchor (hway disk hgrounded) hfolder hnames
    (fun location target halong => by
      obtain ⟨below, hne, hprefix, rfl⟩ := halong
      cases below with
      | nil => exact absurd rfl hne
      | cons first below =>
          rw [(List.cons_prefix_cons.1 hprefix).1]
          exact hgrounded.noLink below target)
    (Path.mk anchor (parts ++ "elm-stuff" :: rest)).parts.length
  exact htouches.mono (fun location halong => .inr (hmay location halong)) fun _ hfalse => hfalse.elim

theorem mem_generatedFolders_of_along {name : String} (hname : name = "src" ∨ name = "js")
    (h : Disk.Along folder ["elm-stuff", "tests-0.19.1", name] location) :
    location ∈ generatedFolders folder := by
  obtain ⟨below, hne, hprefix, rfl⟩ := h
  simp only [List.prefix_cons_iff, List.prefix_nil] at hprefix
  obtain rfl | ⟨_, rfl, rfl | ⟨_, rfl, rfl | ⟨_, rfl, rfl⟩⟩⟩ := hprefix
  · exact absurd rfl hne
  · simp [generatedFolders]
  · simp [generatedFolders]
  · rcases hname with rfl | rfl <;> simp [generatedFolders]

theorem sources_eq (root : Path) :
    (Layout.mk root defaultElmVersion).sources =
      ⟨root.anchor, root.parts ++ ["elm-stuff", "tests-0.19.1", "src"]⟩ := by
  simp [Layout.sources, root_eq, child]

section Makable

variable (hroot : root.anchor ≠ .here)
include hroot

theorem makable_sources : Makable root folder (Layout.mk root defaultElmVersion).sources := by
  rw [sources_eq]
  exact makable_along hroot (fun _ hgrounded => hgrounded.leads) (by decide) fun _ =>
    mem_generatedFolders_of_along (.inl rfl)

theorem makable_scripts : Makable root folder (Layout.mk root defaultElmVersion).scripts := by
  rw [scripts_eq]
  exact makable_along hroot (fun _ hgrounded => hgrounded.leads) (by decide) fun _ =>
    mem_generatedFolders_of_along (.inr rfl)

theorem makable_root : Makable root folder (Layout.mk root defaultElmVersion).root := by
  rw [root_eq]
  exact makable_along hroot (fun _ hgrounded => hgrounded.leads) (by decide) fun _ halong =>
    mem_generatedFolders_of_along (.inl rfl) (halong.of_prefix ⟨["src"], rfl⟩)

theorem makable_told {name : String} (hname : ProperName name) :
    Makable root folder ((Layout.mk root defaultElmVersion).told
      ((Layout.mk root defaultElmVersion).scripts.child name)).parent := by
  obtain ⟨anchor, hanchor, htold⟩ := exists_told_eq hroot hname
  have hparent : ((Layout.mk root defaultElmVersion).told
      ((Layout.mk root defaultElmVersion).scripts.child name)).parent =
      ⟨anchor, (root.parts.flatMap named).filter (fun step => !(step == ".")) ++
        ["elm-stuff", "tests-0.19.1", "js"]⟩ := by
    simp [htold, parent, scriptNames]
  rw [hparent]
  refine makable_along hanchor (fun disk hgrounded => ?_) (by decide) fun _ =>
    mem_generatedFolders_of_along (.inr rfl)
  rw [flatMap_named_filter]
  exact hgrounded.leads.skip

end Makable

theorem makable_noOutput :
    Makable root folder ((Layout.mk root defaultElmVersion).told Compiler.noOutput).parent := by
  intro disk hgrounded
  obtain ⟨entries, htree⟩ := hgrounded.tree_eq
  have htouches : disk.Touches (Disk.Along [] ["dev"]) (fun _ => False)
      (Disk.makeFolders ⟨.root, [] ++ ["dev"]⟩ disk).2 := by
    refine Disk.makeFoldersUpTo_touches (by decide) (.here htree) htree (by decide) ?_ _
    intro location target halong
    rw [halong.eq_of_singleton]
    exact hgrounded.noOutput 1 target
  rw [told_noOutput]
  exact htouches.mono (fun location halong => .inl halong.eq_of_singleton) fun _ hfalse => hfalse.elim

/-- A path into the generated project denotes the location that its names say. -/
theorem Grounded.location_eq (h : Grounded root folder disk) {text : String} {way rest : List String}
    (hway : Disk.Leads disk [] way folder) (habsolute : Disk.isAbsolute text = true)
    (hsteps : Disk.steps text = way ++ "elm-stuff" :: rest) (hrest : ∀ name ∈ rest, ProperName name)
    (hfind : disk.find text = .ok (location, node)) : location = folder ++ "elm-stuff" :: rest := by
  refine Disk.location_of_find hway habsolute hsteps ?_ (fun count => h.noLink _) hfind
  refine List.forall_mem_cons.2 ⟨by decide, fun name hname => ?_⟩
  exact ⟨(hrest name hname).notHere, (hrest name hname).notAbove⟩

/-- The names of the scripts of a generated project. -/
def generatedScripts : List String :=
  ["Runner.elm.js", "node_runner.js", "Reporter.elm.js", "node_supervisor.js"]

theorem properName_of_mem_generatedScripts : ∀ name ∈ generatedScripts, ProperName name := by
  decide

theorem mayWrite_script {name : String} (hname : name ∈ generatedScripts) :
    MayWrite folder (folder ++ scriptNames name) := by
  right
  simp only [generatedScripts, List.mem_cons, List.not_mem_nil, or_false] at hname
  rcases hname with rfl | rfl | rfl | rfl <;> simp [generatedFiles, scriptNames]

section Writable

variable (hroot : root.anchor ≠ .here)
include hroot

theorem writable_manifest : Writable root folder (Layout.mk root defaultElmVersion).manifest.toString := by
  intro disk location node hgrounded hfind
  rw [hgrounded.location_eq hgrounded.leads (isAbsolute_manifest hroot) (steps_manifest hroot) (by decide)
    hfind]
  exact .inr (by simp [generatedFiles])

theorem writable_runnerSource :
    Writable root folder (Layout.mk root defaultElmVersion).runnerSource.toString := by
  intro disk location node hgrounded hfind
  rw [hgrounded.location_eq hgrounded.leads (isAbsolute_runnerSource hroot) (steps_runnerSource hroot)
    (by decide) hfind]
  exact .inr (by simp [generatedFiles])

theorem writable_script {name : String} (hname : name ∈ generatedScripts) :
    Writable root folder ((Layout.mk root defaultElmVersion).scripts.child name).toString := by
  intro disk location node hgrounded hfind
  rw [hgrounded.location_script hroot (properName_of_mem_generatedScripts name hname) hfind]
  exact mayWrite_script hname

theorem writable_told {name : String} (hname : name ∈ generatedScripts) :
    Writable root folder ((Layout.mk root defaultElmVersion).told
      ((Layout.mk root defaultElmVersion).scripts.child name)).toString := by
  intro disk location node hgrounded hfind
  rw [hgrounded.location_told hroot (properName_of_mem_generatedScripts name hname) hfind]
  exact mayWrite_script hname

end Writable

theorem writable_noOutput :
    Writable root folder ((Layout.mk root defaultElmVersion).told Compiler.noOutput).toString := by
  intro disk location node hgrounded hfind
  rw [told_noOutput] at hfind
  obtain ⟨-, hlocation, -⟩ :=
    Disk.nodeAt?_of_find spells_noOutput (by decide) hgrounded.noOutput hfind
  exact .inl hlocation

namespace Pipeline

variable {context : RunContext} {options : RunOptions}

/-- The files that a stage writes are those that a run may write, in folders that it may make. -/
theorem makable_written (hroot : root.anchor ≠ .here) {stage : Stage} {path : Path}
    (hpath : path ∈ written ⟨root, defaultElmVersion⟩ stage) :
    Makable root folder path.parent ∧ Writable root folder path.toString := by
  have hscript {name : String} (hname : name ∈ generatedScripts) :
      Makable root folder ((Layout.mk root defaultElmVersion).scripts.child name).parent ∧
        Writable root folder ((Layout.mk root defaultElmVersion).scripts.child name).toString := by
    rw [parent_child]
    exact ⟨makable_scripts hroot, writable_script hroot hname⟩
  have htold {name : String} (hname : name ∈ generatedScripts) :
      Makable root folder ((Layout.mk root defaultElmVersion).told
          ((Layout.mk root defaultElmVersion).scripts.child name)).parent ∧
        Writable root folder ((Layout.mk root defaultElmVersion).told
          ((Layout.mk root defaultElmVersion).scripts.child name)).toString :=
    ⟨makable_told hroot (properName_of_mem_generatedScripts name hname), writable_told hroot hname⟩
  have hmanifest : Makable root folder (Layout.mk root defaultElmVersion).manifest.parent ∧
      Writable root folder (Layout.mk root defaultElmVersion).manifest.toString := by
    rw [Layout.manifest, parent_child]
    exact ⟨makable_root hroot, writable_manifest hroot⟩
  have hsource : Makable root folder (Layout.mk root defaultElmVersion).runnerSource.parent ∧
      Writable root folder (Layout.mk root defaultElmVersion).runnerSource.toString := by
    rw [Layout.runnerSource, parent_child]
    exact ⟨makable_sources hroot, writable_runnerSource hroot⟩
  cases stage <;> simp only [written, List.mem_cons, List.not_mem_nil, or_false] at hpath
  case synthesize => exact hpath ▸ hmanifest
  case solve => exact hpath ▸ hmanifest
  case compileTests => exact hpath ▸ ⟨makable_noOutput, writable_noOutput⟩
  case generateRunner => exact hpath ▸ hsource
  case compileRunner =>
    rcases hpath with heq | heq <;> rw [heq]
    · exact htold (by decide)
    · exact hscript (by decide)
  case generateNodeRunner => exact hpath ▸ hscript (by decide)
  case compileReporter => exact hpath ▸ htold (by decide)
  case generateSupervisor => exact hpath ▸ hscript (by decide)

/-- Every stage changes only what a run may change. -/
theorem footprint_perform (hroot : root.anchor ≠ .here) (hquiet : context.tools.Quiet) (stage : Stage)
    (found : Findings) :
    (perform context options ⟨root, defaultElmVersion⟩ found stage).Keeps (Footprint root folder) := by
  refine keeps_perform (permissive_footprint root folder) (fun world _ _ => .refl world.disk) hquiet options
    found (fun path hpath => ?_) fun path hpath => makable_written hroot hpath
  cases stage <;> simp only [made, List.mem_cons, List.not_mem_nil, or_false] at hpath
  rcases hpath with rfl | rfl
  · exact makable_sources hroot
  · exact makable_scripts hroot

/-! ### Stages that change nothing -/

/-- Nothing is written before the manifest of the project is read. -/
theorem disk_synthesize (hroot : root.anchor ≠ .here) (found : Findings) (world : World) :
    ((perform context options ⟨root, defaultElmVersion⟩ found .synthesize).run world).2.disk = world.disk ∨
      ∃ folder entries, Disk.Leads world.disk [] (root.parts.flatMap named) folder ∧
        world.disk.nodeAt? folder = some (.folder entries) := by
  have hread : (ManifestFile.readText (root.child ManifestFile.fileName)).Keeps SameDisk :=
    .orElse (tolerant_sameDisk.result fun _ => rfl) _
  rw [perform, run_map, synthesize, run_bind]
  rcases hrun : (ManifestFile.readText (root.child ManifestFile.fileName)).run world with
    ⟨trouble | text, between⟩
  · exact .inl (hread.of_run hrun)
  · exact .inr (exists_leads_of_readText hroot hrun)

/-- An action ends with no failure, only with faults. -/
def Blameless {α : Type} (act : Act α) : Prop :=
  ∀ world cause after, act.run world ≠ (.error (.failure cause), after)

theorem Blameless.bind {α β : Type} {act : Act α} {next : α → Act β} (hact : Blameless act)
    (hnext : ∀ value, Blameless (next value)) : Blameless (act >>= next) := by
  intro world cause after h
  rcases run_bind_eq_error.1 h with h | ⟨value, between, -, h⟩
  · exact hact world cause after h
  · exact hnext value between cause after h

theorem blameless_look {α : Type} (question : Disk → Except Fault α) : Blameless (Act.look question) := by
  intro world cause after h
  rw [run_look] at h
  cases hresult : question world.disk <;> rw [hresult] at h <;> cases h

theorem blameless_ofFault {α : Type} (result : Except Fault α) : Blameless (Act.ofFault result) := by
  intro world cause after h
  rw [run_ofFault] at h
  cases result <;> cases h

theorem blameless_makeFolders (path : Path) : Blameless (Act.makeFolders path) := by
  intro world cause after h
  rw [run_makeFolders] at h
  cases hresult : (Disk.makeFolders path world.disk).1 <;> rw [hresult] at h <;> cases h

theorem blameless_write (app : Application) (path : Path) : Blameless (ManifestFile.write app path) := by
  refine (blameless_makeFolders _).bind fun _ => (blameless_ofFault _).bind fun text => ?_
  refine Blameless.bind ?_ fun _ => Blameless.bind ?_ fun _ => ?_
  · exact (blameless_look _).bind fun _ _ _ _ h => by cases h
  · exact fun _ _ _ h => by cases h
  · exact fun _ _ _ h => by cases h

/-- A failure of the synthesis leaves the disk as it was. -/
theorem disk_of_synthesize_failure {layout : Layout} {found : Findings} {world after : World}
    {cause : Failure}
    (h : (perform context options layout found .synthesize).run world = (.error (.failure cause), after)) :
    after.disk = world.disk := by
  have hread : (ManifestFile.readText (layout.projectRoot.child ManifestFile.fileName)).Keeps SameDisk :=
    .orElse (tolerant_sameDisk.result fun _ => rfl) _
  have htext (text : List Char) : (Synthesis.ofText text layout.projectRoot layout.root
      context.installation.helperSources).Keeps SameDisk :=
    Synthesis.keeps_ofText tolerant_sameDisk _ _ _ _
  rw [perform, run_map_eq_error] at h
  rcases run_bind_eq_error.1 h with h | ⟨text, between, hrun, h⟩
  · exact hread.of_run h
  rcases run_bind_eq_error.1 h with h | ⟨synthesis, later, hrun', h⟩
  · exact ((htext text).of_run h).trans (hread.of_run hrun)
  · -- What is left writes, and ends with faults only.
    have hblameless : Blameless (makeFolders layout >>= fun _ =>
        ManifestFile.write synthesis.app layout.manifest >>= fun _ => pure synthesis) :=
      ((blameless_makeFolders _).bind fun _ => blameless_makeFolders _).bind fun _ =>
        (blameless_write _ _).bind fun _ _ _ _ h => by cases h
    exact absurd h (hblameless later cause after)

/-! ### Runs -/

section Course

variable {all : List Stage} {found : Findings} {start final : World}
  {ending : Except Interruption Findings} {outcomes : List Outcome}

/-- In a grounded project, stages change only what a run may change. -/
theorem Course.touches (hroot : root.anchor ≠ .here) (hquiet : context.tools.Quiet)
    (hgrounded : Grounded root folder start.disk)
    (h : Course context options ⟨root, defaultElmVersion⟩ all found start ending final outcomes) :
    start.disk.Touches (MayMake folder) (MayWrite folder) final.disk := by
  obtain ⟨_, htouches⟩ := (h.holds (P := fun _ disk =>
    start.disk.Touches (MayMake folder) (MayWrite folder) disk)
    (fun stage _ found world _ htouches =>
      htouches.trans (footprint_perform hroot hquiet stage found world
        (hgrounded.grow htouches.toGrows))) (.refl start.disk)).2
  exact htouches

/-- A stage that is not passed is the last. -/
theorem Course.cases_head {stage : Stage} {rest : List Stage} {layout : Layout}
    (h : Course context options layout (stage :: rest) found start ending final outcomes) :
    (∃ trouble between, (perform context options layout found stage).run start =
        (.error trouble, between) ∧ final.disk = between.disk ∧
        visits context options layout (stage :: rest) found start = [⟨stage, found, start⟩]) ∨
      ∃ next detail between outcomes', (perform context options layout found stage).run start =
        (.ok (next, detail), between) ∧
        Course context options layout rest next between ending final outcomes' := by
  cases h with
  | passed hrun hrest => exact .inr ⟨_, _, _, _, hrun, hrest⟩
  | failed hrun _ hdisk _ => exact .inl ⟨_, _, hrun, hdisk, by rw [visits, hrun]⟩
  | left hrun _ => exact .inl ⟨_, _, hrun, rfl, by rw [visits, hrun]⟩

/-- A run from a project whose root leads to no folder changes nothing. -/
theorem Course.disk_of_no_folder (hroot : root.anchor ≠ .here)
    (hnone : ¬ ∃ folder entries, Disk.Leads start.disk [] (root.parts.flatMap named) folder ∧
      start.disk.nodeAt? folder = some (.folder entries))
    (h : Course context options ⟨root, defaultElmVersion⟩ Stage.all found start ending final outcomes) :
    final.disk = start.disk := by
  rcases h.cases_head with ⟨_, between, hrun, hdisk, -⟩ | ⟨_, _, second, _, hrun, h⟩
  · exact hdisk.trans ((sameDisk_perform (by decide) _).of_run hrun)
  have hsecond : second.disk = start.disk := (sameDisk_perform (by decide) _).of_run hrun
  rcases h.cases_head with ⟨_, between, hrun, hdisk, -⟩ | ⟨_, _, third, _, hrun, h⟩
  · exact hdisk.trans (((sameDisk_perform (by decide) _).of_run hrun).trans hsecond)
  have hthird : third.disk = start.disk := ((sameDisk_perform (by decide) _).of_run hrun).trans hsecond
  rw [← hthird] at hnone ⊢
  rcases h.cases_head with ⟨_, between, hrun, hdisk, -⟩ | ⟨_, _, _, _, hrun, h⟩
  · rcases disk_synthesize hroot _ third with hsame | hsome
    · rw [hrun] at hsame
      exact hdisk.trans hsame
    · exact absurd hsome hnone
  · exact absurd (exists_leads_of_synthesize hroot hrun) hnone

end Course

/-- A run ends before it gets to the generated project: in one of the first two stages, or in the
third with a failure, such as that of a manifest that is none or of a source directory that is
missing. -/
def EndsEarly (visit : Visit) (trouble : Trouble) : Prop :=
  visit.stage = .validateOptions ∨ visit.stage = .discover ∨
    visit.stage = .synthesize ∧ ∃ cause, trouble = .failure cause

section Course

variable {found : Findings} {start final : World} {ending : Except Interruption Findings}
  {outcomes : List Outcome}

/-- The last visit of stages that start with one that passes is that of those behind it. -/
theorem getLast?_visits {stage next : Stage} {rest : List Stage} {layout : Layout}
    {value : Findings × Option String} {between : World}
    (hrun : (perform context options layout found stage).run start = (.ok value, between)) :
    (visits context options layout (stage :: next :: rest) found start).getLast? =
      (visits context options layout (next :: rest) value.1 between).getLast? := by
  rw [visits_cons hrun, visits, List.getLast?_cons_cons]

/-- A run that ends early changes nothing and visits no stage behind the third. -/
theorem Course.of_endsEarly {layout : Layout} {visit : Visit} {trouble : Trouble} {after : World}
    (h : Course context options layout Stage.all found start ending final outcomes)
    (hlast : (visits context options layout Stage.all found start).getLast? = some visit)
    (hrun : (perform context options layout visit.found visit.stage).run visit.world =
      (.error trouble, after)) (hearly : EndsEarly visit trouble) :
    final.disk = start.disk ∧
      (visits context options layout Stage.all found start).map Visit.stage <+: Stage.all.take 3 := by
  rcases h.cases_head with ⟨_, between, hfirst, hdisk, hvisits⟩ | ⟨_, _, second, _, hfirst, h⟩
  · refine ⟨hdisk.trans ((sameDisk_perform (by decide) _).of_run hfirst), ?_⟩
    rw [Stage.all, hvisits]
    exact ⟨_, rfl⟩
  have hdisk₁ : second.disk = start.disk := (sameDisk_perform (by decide) _).of_run hfirst
  rw [Stage.all, getLast?_visits hfirst] at hlast
  rcases h.cases_head with ⟨_, between, hsecond, hdisk, hvisits⟩ | ⟨_, _, third, _, hsecond, h⟩
  · refine ⟨hdisk.trans (((sameDisk_perform (by decide) _).of_run hsecond).trans hdisk₁), ?_⟩
    rw [Stage.all, visits_cons hfirst, hvisits]
    exact ⟨_, rfl⟩
  have hdisk₂ : third.disk = start.disk :=
    ((sameDisk_perform (by decide) _).of_run hsecond).trans hdisk₁
  rw [getLast?_visits hsecond] at hlast
  rcases h.cases_head with ⟨_, between, hthird, hdisk, hvisits⟩ | ⟨_, _, _, _, hthird, -⟩
  · rw [hvisits, List.getLast?_singleton, Option.some.injEq] at hlast
    subst hlast
    rw [hthird] at hrun
    cases hrun
    rcases hearly with hstage | hstage | ⟨-, cause, rfl⟩
    · cases hstage
    · cases hstage
    · refine ⟨hdisk.trans ((disk_of_synthesize_failure hthird).trans hdisk₂), ?_⟩
      rw [Stage.all, visits_cons hfirst, visits_cons hsecond, hvisits]
      exact ⟨_, rfl⟩
  · -- A visit behind the third stage does not end early.
    rw [getLast?_visits hthird] at hlast
    have hmem := ( map_stage_visits_prefix _ _ _).subset
      (List.mem_map_of_mem (f := Visit.stage) (List.mem_of_getLast? hlast))
    rcases hearly with hstage | hstage | ⟨hstage, -⟩ <;> rw [hstage] at hmem <;> simp at hmem

end Course

theorem no_tool_of_prefix {layout : Layout} {visited : List Visit}
    (h : visited.map Visit.stage <+: Stage.all.take 3) :
    visited.filterMap (Visit.call? context options layout) = [] := by
  rw [List.filterMap_eq_nil_iff]
  intro visit hvisit
  have hstage := h.subset (List.mem_map_of_mem (f := Visit.stage) hvisit)
  simp only [Stage.all, List.take_succ_cons, List.take_zero, List.mem_cons, List.not_mem_nil,
    or_false] at hstage
  rw [Visit.call?, Visit.tool?]
  rcases hstage with hstage | hstage | hstage <;> rw [hstage] <;> rfl

/-- A run, wherever it ends, changes nothing but the folders and files of the generated project, if no
link stands in that and tools write only the files that they are told; and it changes nothing at all,
and asks for no tool, if it ends before it gets there. -/
theorem run_touches {given : Path} {start final : World} {result : Except Trouble RunResult}
    (hlink : ∀ canonical, start.disk.locateLeniently given = .ok canonical →
      NoLinkInside start.disk canonical)
    (hnull : start.disk.NoLinkOn ["dev", "null"]) (hquiet : context.tools.Quiet)
    (hrun : (run context options given).run start = (result, final)) :
    (final.disk = start.disk ∨
      ∃ canonical folder, start.disk.locateLeniently given = .ok canonical ∧
        Disk.Leads start.disk [] (Disk.steps canonical.toString) folder ∧
        start.disk.Touches (MayMake folder) (MayWrite folder) final.disk) ∧
    ∀ canonical visit trouble after, start.disk.locateLeniently given = .ok canonical →
      (visits context options ⟨canonical, defaultElmVersion⟩ Stage.all {} start).getLast? = some visit →
      (perform context options ⟨canonical, defaultElmVersion⟩ visit.found visit.stage).run visit.world =
        (.error trouble, after) →
      EndsEarly visit trouble → final.disk = start.disk ∧ final.calls = start.calls := by
  cases hlocate : start.disk.locateLeniently given with
  | error fault =>
      have hlost : (Act.locateLeniently given).run start = (.error (.fault fault), start) := by
        rw [Act.locateLeniently, run_look, hlocate]
        rfl
      rw [run, run_bind, hlost] at hrun
      cases hrun
      exact ⟨.inl rfl, fun _ _ _ _ h => by cases h⟩
  | ok canonical =>
      have hroot := anchor_of_locateLeniently hlocate
      obtain ⟨ending, last, outcomes, hcourse, hends⟩ :=
        @exists_course_of_run context options _ _ _ hlocate
      have hfinal : final = last := by
        rw [hrun] at hends
        rcases ending with (- | fault) | found <;> exact (congrArg Prod.snd hends)
      subst hfinal
      refine ⟨?_, ?_⟩
      · by_cases hfolder : ∃ folder entries, Disk.Leads start.disk [] (canonical.parts.flatMap named)
          folder ∧ start.disk.nodeAt? folder = some (.folder entries)
        · obtain ⟨folder, entries, hleads, hnode⟩ := hfolder
          have hsettled := settled_of_noLinkInside hroot hleads hnode (hlink canonical hlocate)
          exact .inr ⟨canonical, folder, rfl, Disk.leads_steps hroot hleads hnode,
            hcourse.touches hroot hquiet ⟨hsettled, ⟨entries, hnode⟩, hnull⟩⟩
        · exact .inl (hcourse.disk_of_no_folder hroot hfolder)
      · intro other visit trouble after hother hlast herror hearly
        cases hother
        obtain ⟨hdisk, hstages⟩ := hcourse.of_endsEarly hlast herror hearly
        refine ⟨hdisk, ?_⟩
        rw [hcourse.calls, no_tool_of_prefix hstages, List.append_nil]

/-- A run whose tests do not compile has changed nothing but the generated project in its folder. -/
theorem run_touches_of_rejected_tests :
    ∃ result final, (run (smallContext 1) {} (.ofString "/p")).run ⟨smallProject, [], []⟩ =
        (.ok result, final) ∧
      result.outcomes.map Outcome.ok = [true, true, true, true, false] ∧
      smallProject.Touches (MayMake ["p"]) (MayWrite ["p"]) final.disk := by
  have hoks : (((run (smallContext 1) {} (.ofString "/p")).run ⟨smallProject, [], []⟩).1.toOption.map
      fun result => result.outcomes.map Outcome.ok) = some [true, true, true, true, false] := by
    decide +kernel
  have hlocate : smallProject.locateLeniently (.ofString "/p") = .ok (.ofString "/p") := by
    decide +kernel
  have hnoLink : ∀ location target, smallProject.nodeAt? location ≠ some (.link target) :=
    Node.at?_ne_link (by decide +kernel)
  have hquiet : (smallContext 1).tools.Quiet := ⟨fun _ => rfl, fun _ _ h => (by cases h), rfl, rfl⟩
  generalize hrun : (run (smallContext 1) {} (.ofString "/p")).run ⟨smallProject, [], []⟩ = ended at hoks ⊢
  obtain ⟨trouble | result, final⟩ := ended
  · cases hoks
  · refine ⟨result, final, rfl, Option.some.inj hoks, ?_⟩
    obtain ⟨hsame | ⟨canonical, folder, hcanonical, hleads, htouches⟩, -⟩ :=
      run_touches (fun _ _ _ _ _ => hnoLink _) (fun _ => hnoLink _) hquiet hrun
    · rw [hsame]
      exact .refl _
    · rw [hlocate, Except.ok.injEq] at hcanonical
      subst hcanonical
      have hfolder : folder = [] ++ ["p"] :=
        hleads.eq_append_of_no_link (by decide) fun _ => hnoLink _
      rw [hfolder] at htouches
      exact htouches

end Pipeline

end ElmSuite
