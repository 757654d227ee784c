import ElmSuite.Proofs.Run.CanonicalPaths
import ElmSuite.Proofs.Run.Footprint
import ElmSuite.Proofs.Suite.Discovery
import ElmSuite.Proofs.Suite.SharedRoot

/-!
Runs that are not told which files to test.  The files that they find lie below the folder `tests` of the
project, the source directories of the generated project are canonical and `tests` is one of them, and no
link stands in the project; so the directory that the files are named by is always among those that they
are compared with.
-/

namespace ElmSuite

open Act

/-- The manifest of a project lists a source directory with a canonical path. -/
def ListsDirectory (disk : Disk) (project directory : Path) : Prop :=
  ∃ text host entry, disk.readText (project.child ManifestFile.fileName).toString = .ok text ∧
    Manifest.ofText text (some (project.child ManifestFile.fileName).toString) = .ok host ∧
    entry ∈ host.toApplication.sourceDirectories ∧
    disk.locate (project.join (.ofString entry.lossy)) = .ok directory

/-- The canonical path of the folder for tests. -/
def testsFolder (names : List String) : Path :=
  .ofLocation (names ++ ["tests"])

/-- A file also lies below a source directory that the manifest lists and that is not the folder for
tests. -/
def Overlaps (disk : Disk) (names : List String) (file directory : Path) : Prop :=
  ListsDirectory disk (.ofLocation names) directory ∧ directory ≠ testsFolder names ∧
    file.LiesUnder directory

/-- All test files lie below the folder for tests only, along upper names. -/
structure CleanlyNamed (disk : Disk) (names : List String) : Prop where
  apart : ∀ file directory, Discovery.IsTestFile disk names file → ¬ Overlaps disk names file directory
  upper : ∀ file, Discovery.IsTestFile disk names file →
    ∃ segments, Elm.SegmentsBelow (testsFolder names) file segments ∧
      ∀ segment ∈ segments, Elm.isUpperName segment = true

/-- A file holds a text in UTF-8. -/
def HoldsText (disk : Disk) (file : Path) : Prop :=
  ∃ bytes text, disk.nodeAt? file.parts = some (.file bytes) ∧ Text.Utf8.decode bytes = .ok text

namespace Discovery

variable {names : List String} {world after : World} {disk later : Disk} {file : Path}

theorem liesUnder_testsFolder (h : IsTestFile disk names file) : file.LiesUnder (testsFolder names) := by
  obtain ⟨more, name, _, rfl, -⟩ := h
  exact ⟨rfl, more ++ [name], (List.append_assoc _ _ _).symm⟩

/-- The source directory `tests` has the folder for tests as its canonical path. -/
theorem eq_testsFolder_of_locate (h : PlainProject disk names) {path : Path}
    (hlocate : disk.locate ((Path.ofLocation names).join
      (.ofString Synthesis.testsDirectory.lossy)) = .ok path) : path = testsFolder names := by
  have hjoin : (Path.ofLocation names).join (.ofString Synthesis.testsDirectory.lossy) =
      .ofString (testsFolder names).toString := by
    rw [Path.ofString_toString (by simp [testsFolder, Path.ofLocation])
      fun part hpart => Path.isPart_of_properName (h.proper_tests part hpart)]
    rfl
  rw [hjoin] at hlocate
  have hlink : disk.NoLinkOn (names ++ ["tests"]) := by simpa using h.noLinkOn []
  rcases Disk.locate_of_noLinkOn (Path.spells_ofLocation h.proper_tests) h.proper_tests hlink with
    hfolder | ⟨_, _, hrefused⟩
  · exact Except.ok.inj (hlocate.symm.trans hfolder)
  · cases hlocate.symm.trans hrefused

/-- What is collected without targets are the test files, each once. -/
theorem testFiles_of_collect (h : PlainProject world.disk names)
    (hself : MatchesItself world.disk (Path.ofLocation names).toString) {files : List Path}
    (hrun : (collect [] (Path.ofLocation names).toString).run world = (.ok files, after)) :
    files.Nodup ∧ ∀ path, path ∈ files ↔ IsTestFile world.disk names path := by
  obtain ⟨found, hyields, hfound⟩ := exists_discover h hself
  obtain ⟨-, between, hcandidates⟩ := candidates_of_collect hrun
  obtain ⟨_, hdiscover, -⟩ := hyields world rfl
  have hsame : (discover (defaultPatterns (Path.ofLocation names).toString)).run world =
      (.ok files, between) := hcandidates
  rw [hdiscover] at hsame
  cases hsame
  exact hfound

/-- A test file that still holds a text can be read, whatever else has changed. -/
theorem exists_readTestFile (hproper : disk.ProperNames) (h : IsTestFile disk names file)
    (htext : HoldsText later file) : ∃ source, readTestFile later file = .ok source := by
  obtain ⟨more, name, _, rfl, hnode, -, -, hsize⟩ := h
  obtain ⟨bytes, text, hbytes, hdecode⟩ := htext
  have hnames := hproper.of_nodeAt? hnode
  have hfind := Disk.find_of_nodeAt? (Path.spells_ofLocation hnames) hnames hsize hbytes (by simp)
    fun hend => absurd hend (Disk.getLast?_ofLocation hnames (by simp))
  refine ⟨Text.normalizeNewlines text, ?_⟩
  rw [readTestFile, Disk.readText, Disk.readBytes, hfind]
  simp only [ok_bind, hdecode]

end Discovery

namespace Pipeline

variable {context : RunContext} {options : RunOptions} {names : List String}

section Synthesize

variable {world after : World} {synthesis : Synthesis}

/-- The directories that test files are compared with: the folder for tests, and those that the manifest
lists. -/
theorem directories_of_synthesize (h : Discovery.PlainProject world.disk names)
    (hrun : (synthesize context ⟨.ofLocation names, defaultElmVersion⟩).run world =
      (.ok synthesis, after)) :
    synthesis.directories.Nodup ∧ testsFolder names ∈ synthesis.directories ∧
      ∀ directory ∈ synthesis.directories, directory = testsFolder names ∨
        ListsDirectory world.disk (.ofLocation names) directory := by
  obtain ⟨entries, hfolder⟩ := h.root
  have hproper := h.properNames.of_nodeAt? hfolder
  obtain ⟨text, between, _, _, hread, hofText, -, -⟩ := exists_steps_of_synthesize hrun
  obtain ⟨-, project, _, host, hproject, -, hhost, hdirectories, -⟩ := Synthesis.exists_host_of_ofText hofText
  have hcanonical := Disk.locateLeniently_ofLocation hproper (Disk.stands_of_folder hfolder).noLinkOn
    (Disk.plainly_of_folder hproper hfolder)
  obtain rfl : Path.ofLocation names = project := Except.ok.inj (hcanonical.symm.trans hproject)
  obtain ⟨located, hlocated, hfound⟩ := Synthesis.sourceDirectories_eq_ok hdirectories
  rw [hfound]
  refine ⟨nodup_eraseDups _, ?_, fun directory hdirectory => ?_⟩
  · obtain ⟨path, hpath, hlocate, -⟩ := exists_mem_right hlocated Synthesis.testsDirectory (by simp)
    rw [List.mem_eraseDups, ← Discovery.eq_testsFolder_of_locate h hlocate]
    exact hpath
  · rw [List.mem_eraseDups] at hdirectory
    obtain ⟨entry, hentry, hlocate, -⟩ := exists_mem_left hlocated directory hdirectory
    rcases List.mem_append.1 hentry with hentry | hentry
    · exact .inr ⟨text, host, entry, hread, hhost, hentry, hlocate⟩
    · rw [List.mem_singleton.1 hentry] at hlocate
      exact .inl (Discovery.eq_testsFolder_of_locate h hlocate)

end Synthesize

section Visits

variable {layout : Layout} {all : List Stage} {found : Findings} {world start after final : World}
  {visit : Visit} {ending : Except Interruption Findings} {outcomes : List Outcome}

/-- The tests are found among the files and by the directories that earlier stages came up with, which saw
the disk as it was at the start. -/
theorem exists_handed_on (h : visit ∈ visits context options layout Stage.all {} start)
    (hstage : visit.stage = .findTests) :
    ∃ first between second later, first.disk = start.disk ∧ second.disk = start.disk ∧
      (Discovery.collect options.files layout.projectRoot.toString).run first =
        (.ok visit.found.files, between) ∧
      (synthesize context layout).run second = (.ok visit.found.synthesis, later) := by
  change visit ∈ visits context options layout
    ([.validateOptions, .discover, .synthesize] ++ Stage.all.drop 3) {} start at h
  obtain ⟨next, between, _, hcourse, hback⟩ := exists_course_of_mem_visits h (by rw [hstage]; decide)
  obtain _ | ⟨hvalidate, hcourse⟩ := hcourse
  obtain _ | ⟨hdiscover, hcourse⟩ := hcourse
  obtain _ | ⟨hsynthesize, hcourse⟩ := hcourse
  obtain _ | _ := hcourse
  obtain ⟨hsynthesis, hkept⟩ := synthesis_of_synthesize hsynthesize
  have hfiles := files_of_discover hdiscover
  have hfirst := (sameDisk_perform (by decide) _).of_run hvalidate
  have hsecond := ((sameDisk_perform (by decide) _).of_run hdiscover).trans hfirst
  obtain ⟨_, -, hsameFiles, hsameSynthesis⟩ := forall_visits
    (P := fun _ found _ => found.files = next.files ∧ found.synthesis = next.synthesis)
    (fun stage rest found world following detail between hsuffix hsame hrun => by
      have hlater : stage ∈ Stage.all.drop 3 := hsuffix.subset List.mem_cons_self
      rw [files_of_perform (by rintro rfl; revert hlater; decide) hrun,
        synthesis_of_perform (by rintro rfl; revert hlater; decide) hrun]
      exact hsame) ⟨rfl, rfl⟩ visit hback
  rw [hsameFiles, hsameSynthesis, hkept]
  exact ⟨_, _, _, _, hfirst, hsecond, hfiles, hsynthesis⟩

/-- What earlier stages have come up with when a run without targets gets to its tests. -/
structure Handed (disk : Disk) (names : List String) (found : Findings) : Prop where
  once : found.files.Nodup
  files : ∀ path, path ∈ found.files ↔ Discovery.IsTestFile disk names path
  distinct : found.synthesis.directories.Nodup
  tests : testsFolder names ∈ found.synthesis.directories
  listed : ∀ directory ∈ found.synthesis.directories, directory = testsFolder names ∨
    ListsDirectory disk (.ofLocation names) directory

theorem handed_of_mem_visits (h : Discovery.PlainProject start.disk names)
    (hpattern : Glob.isPattern (Path.ofLocation names).toString = false) (htargets : options.files = [])
    (hvisit : visit ∈ visits context options ⟨.ofLocation names, defaultElmVersion⟩ Stage.all {} start)
    (hstage : visit.stage = .findTests) : Handed start.disk names visit.found := by
  obtain ⟨first, _, second, _, hfirst, hsecond, hcollect, hsynthesize⟩ := exists_handed_on hvisit hstage
  rw [htargets] at hcollect
  rw [← hfirst] at h
  have hself : Discovery.MatchesItself first.disk (Path.ofLocation names).toString := fun hmatch => by
    rw [hpattern] at hmatch
    cases hmatch
  obtain ⟨honce, hfiles⟩ := Discovery.testFiles_of_collect h hself hcollect
  rw [hfirst, ← hsecond] at h
  obtain ⟨hdistinct, htests, hlisted⟩ := directories_of_synthesize h hsynthesize
  rw [hfirst] at hfiles
  rw [hsecond] at hlisted
  exact ⟨honce, hfiles, hdistinct, htests, hlisted⟩

section Handed

variable {disk : Disk} (h : Handed disk names found)
include h

theorem Handed.liesUnder : ∀ file ∈ found.files, file.LiesUnder (testsFolder names) :=
  fun file hfile => Discovery.liesUnder_testsFolder ((h.files file).1 hfile)

/-- A file below another of the directories overlaps with one that the manifest lists. -/
theorem Handed.overlaps {file directory : Path} (hdirectory : directory ∈ found.synthesis.directories)
    (hother : directory ≠ testsFolder names) (hunder : file.LiesUnder directory) :
    Overlaps disk names file directory :=
  ⟨(h.listed directory hdirectory).resolve_left hother, hother, hunder⟩

/-- Cleanly named files that hold texts are test modules, one each. -/
theorem Handed.exists_modules (hproper : disk.ProperNames) (hclean : CleanlyNamed disk names) {later : Disk}
    (htext : ∀ file, Discovery.IsTestFile disk names file → HoldsText later file) :
    ∃ modules, ElmSuite.findTests found.synthesis.directories (Discovery.readTestFile later) found.files =
      .ok modules := by
  have hname : ∀ file ∈ found.files,
      ∃ name, Elm.moduleNameOf found.synthesis.directories file = .ok name := by
    intro file hmem
    have hfile := (h.files file).1 hmem
    obtain ⟨segments, hsegments, hupper⟩ := hclean.upper file hfile
    have hroots : Elm.containing found.synthesis.directories file = [testsFolder names] := by
      refine Elm.containing_eq_singleton h.distinct h.tests (h.liesUnder file hmem) ?_
      intro directory hdirectory hunder
      by_contra hother
      exact hclean.apart file directory hfile (h.overlaps hdirectory hother hunder)
    have hne : file ≠ testsFolder names := by
      obtain ⟨more, name, _, rfl, -⟩ := hfile
      intro heq
      simpa using Path.ofLocation_inj.1 heq
    exact ⟨_, Elm.moduleNameOf_of_naming (.named hroots hne hsegments hupper)⟩
  have hread : ∀ file ∈ found.files, ∃ source, Discovery.readTestFile later file = .ok source := by
    intro file hmem
    have hfile := (h.files file).1 hmem
    exact Discovery.exists_readTestFile hproper hfile (htext file hfile)
  obtain ⟨modules, hmodules, -⟩ := exists_findTests hname hread
  exact ⟨modules, hmodules⟩

/-- What is said of source directories when the tests are not found. -/
theorem Handed.of_failed {later : Disk} {trouble : Trouble} {cause : Failure}
    (hfails : ElmSuite.findTests found.synthesis.directories (Discovery.readTestFile later) found.files =
      .error trouble) (hcause : failureOf? .findTests trouble = some cause) :
    (∀ path, cause ≠ .noSourceDirectory path) ∧
      ∀ path directories, cause = .ambiguousSourceDirectory path directories →
        ∃ file directory, Discovery.IsTestFile disk names file ∧ path = file.toString ∧
          Overlaps disk names file directory := by
  have hblame := failsOnly_findTests h.distinct h.tests h.liesUnder later trouble hfails
  rcases cases_failureOf? hcause with rfl | ⟨words, rfl⟩
  · refine ⟨fun path heq => hblame.housed path (congrArg _ heq), fun path directories heq => ?_⟩
    obtain ⟨file, hfile, hpath, directory, hdirectory, hother, hunder⟩ :=
      hblame.overlap path directories (congrArg _ heq)
    exact ⟨file, directory, (h.files file).1 hfile, hpath, h.overlaps hdirectory hother hunder⟩
  · exact ⟨nofun, nofun⟩

end Handed

theorem error_of_findTests {trouble : Trouble}
    (h : (perform context options layout found .findTests).run world = (.error trouble, after)) :
    ElmSuite.findTests found.synthesis.directories (Discovery.readTestFile world.disk) found.files =
      .error trouble := by
  rw [perform, run_map_eq_error] at h
  simp only [findTests, run_bind, run_report, Discovery.findModules, run_disk, run_ofTrouble] at h
  exact congrArg Prod.fst h

end Visits

/-- No file of the generated project is in the folder for tests, and neither is the null device. -/
theorem not_mayWrite_tests (below : List String) : ¬ MayWrite names (names ++ (["tests"] ++ below)) := by
  rintro (hnull | hgenerated)
  · match names, hnull with
    | [], h => simp at h
    | [_], h => simp at h
    | _ :: _ :: _, h => simp at h
  · simp [generatedFiles] at hgenerated

/-- A trouble that is reported is the failure of its stage. -/
theorem exists_failureOf? (stage : Stage) {trouble : Trouble} (h : trouble.isReported = true) :
    ∃ cause, failureOf? stage trouble = some cause := by
  rcases trouble with cause | fault
  · exact ⟨cause, rfl⟩
  · cases fault with
    | os error => exact ⟨_, rfl⟩
    | _ => cases h

/-- How a run without targets finds the tests of a project without links, if it gets there: what is said
of a source directory, and when each test file becomes a module. -/
structure TestsFound (context : RunContext) (options : RunOptions) (names : List String) (start : World)
    (visit : Visit) (outcome : Outcome) : Prop where
  stage : outcome.stage = .findTests
  housed : ∀ path, outcome.error ≠ some (.noSourceDirectory path)
  overlap : ∀ path directories, outcome.error = some (.ambiguousSourceDirectory path directories) →
    ∃ file directory, Discovery.IsTestFile start.disk names file ∧ path = file.toString ∧
      Overlaps start.disk names file directory
  succeeds : CleanlyNamed start.disk names →
    (∀ file, Discovery.IsTestFile start.disk names file → HoldsText visit.world.disk file) →
    outcome.ok = true ∧ ∃ next detail after,
      (perform context options ⟨.ofLocation names, defaultElmVersion⟩ visit.found .findTests).run
        visit.world = (.ok (next, detail), after) ∧
      (next.modules.map TestModule.path).Nodup ∧
      ∀ file, file ∈ next.modules.map TestModule.path ↔ Discovery.IsTestFile start.disk names file
  /-- The test files still hold what they held at the start, if the tools write only what they are told. -/
  kept : context.tools.Quiet → start.disk.NoLinkOn ["dev", "null"] →
    ∀ file, Discovery.IsTestFile start.disk names file →
      visit.world.disk.nodeAt? file.parts = start.disk.nodeAt? file.parts

section Run

variable {start : World} {visit : Visit} (h : Discovery.PlainProject start.disk names)
include h

/-- No stage writes to a test file. -/
theorem nodeAt?_of_quiet (hquiet : context.tools.Quiet) (hnull : start.disk.NoLinkOn ["dev", "null"])
    {ending : Except Interruption Findings} {final : World} {outcomes : List Outcome}
    (hcourse : Course context options ⟨.ofLocation names, defaultElmVersion⟩ Stage.all {} start ending final
      outcomes)
    (hvisit : visit ∈ visits context options ⟨.ofLocation names, defaultElmVersion⟩ Stage.all {} start)
    {file : Path} (hfile : Discovery.IsTestFile start.disk names file) :
    visit.world.disk.nodeAt? file.parts = start.disk.nodeAt? file.parts := by
  obtain ⟨entries, hfolder⟩ := h.root
  have hproper := h.properNames.of_nodeAt? hfolder
  have hroot : (Path.ofLocation names).anchor ≠ .here := by simp [Path.ofLocation]
  have hleads : Disk.Leads start.disk [] ((Path.ofLocation names).parts.flatMap Path.named) names := by
    change Disk.Leads start.disk [] (names.flatMap Path.named) names
    rw [Path.flatMap_named fun name hname => Path.named_of_properName (hproper name hname)]
    exact (Disk.stands_of_folder hfolder).leads_root hproper
  have hgrounded : Grounded (.ofLocation names) names start.disk :=
    ⟨⟨hleads, fun below target => h.noLink _ target⟩, ⟨entries, hfolder⟩, hnull⟩
  obtain ⟨_, htouches⟩ := (hcourse.holds (P := fun _ disk =>
    start.disk.Touches (MayMake names) (MayWrite names) disk)
    (fun stage _ found world _ htouches =>
      htouches.trans (footprint_perform hroot hquiet stage found world
        (hgrounded.grow htouches.toGrows))) (.refl start.disk)).1 visit hvisit
  obtain ⟨more, name, bytes, rfl, hnode, -⟩ := hfile
  obtain ⟨later, hlater, -, hsame⟩ := htouches.kept _ _ hnode
  have hkept : later = .file bytes := by
    refine hsame (fun hwrite => ?_) rfl
    rw [List.append_assoc, List.append_assoc] at hwrite
    exact not_mayWrite_tests _ hwrite
  exact hlater.trans (hkept ▸ hnode.symm)

/-- The tests of a project without links: a run without targets that gets to them tells whether it has
found them, and knows a source directory for each test file. -/
theorem stages_find_tests {given : Path} {ending : Except Interruption Int} {state : RunState}
    (hpattern : Glob.isPattern (Path.ofLocation names).toString = false) (htargets : options.files = [])
    (hlocate : start.disk.locateLeniently given = .ok (.ofLocation names))
    (hrun : (stages context options ⟨.ofLocation names, defaultElmVersion⟩).run ⟨start, []⟩ =
      (ending, state))
    (hvisit : visit ∈ visits context options ⟨.ofLocation names, defaultElmVersion⟩ Stage.all {} start)
    (hstage : visit.stage = .findTests) :
    ∃ outcome ∈ state.outcomes, (∀ other ∈ state.outcomes, other.stage = .findTests → other = outcome) ∧
      TestsFound context options names start visit outcome := by
  obtain ⟨result, hcourse⟩ := exists_course_of_stages hrun
  have hhanded := handed_of_mem_visits h hpattern htargets hvisit hstage
  have hroot : (Layout.mk (.ofLocation names) defaultElmVersion).root.NoNull :=
    Layout.noNull_root (Disk.noNull_of_locateLeniently hlocate)
  have hkept (hquiet : context.tools.Quiet) (hnull : start.disk.NoLinkOn ["dev", "null"]) (file : Path)
      (hfile : Discovery.IsTestFile start.disk names file) :
      visit.world.disk.nodeAt? file.parts = start.disk.nodeAt? file.parts :=
    nodeAt?_of_quiet h hquiet hnull hcourse hvisit hfile
  have hoptions := hcourse.exists_outcome hvisit
  obtain ⟨rest, hsuffix, hprepared⟩ := prepared_of_mem_visits hvisit
  obtain ⟨stage, found, world⟩ := visit
  obtain rfl : stage = .findTests := hstage
  rcases hoptions with ⟨next, detail, after, hperform, hmem⟩ | ⟨trouble, after, hperform, hmem⟩
  · refine ⟨_, hmem, fun other hother hstage => hcourse.outcome_unique hother hmem hstage, ?_⟩
    refine ⟨rfl, nofun, nofun, fun _ _ => ⟨rfl, next, detail, after, hperform, ?_⟩, hkept⟩
    have hpaths := (findTests_eq_ok (modules_of_findTests hperform)).1
    have hperm := sortPaths_perm found.files
    rw [hpaths]
    exact ⟨hperm.nodup_iff.2 hhanded.once, fun file => hperm.mem_iff.trans (hhanded.files file)⟩
  · obtain ⟨cause, hcause⟩ := exists_failureOf? .findTests
      (reports_perform hroot hsuffix hprepared (show Stage.findTests ∉ _ by decide) world trouble
        (congrArg Prod.fst hperform))
    have hfails : ElmSuite.findTests found.synthesis.directories (Discovery.readTestFile world.disk)
        found.files = .error trouble := error_of_findTests hperform
    obtain ⟨hhoused, hoverlap⟩ := hhanded.of_failed hfails hcause
    refine ⟨_, hmem cause hcause, fun other hother hstage =>
      hcourse.outcome_unique hother (hmem cause hcause) hstage, ?_⟩
    refine ⟨rfl, fun path heq => hhoused path (Option.some.inj heq),
      fun path directories heq => hoverlap path directories (Option.some.inj heq), fun hclean htext => ?_, hkept⟩
    obtain ⟨modules, hmodules⟩ := hhanded.exists_modules h.properNames hclean htext
    rw [hfails] at hmodules
    cases hmodules

end Run

/-- A run whose compiler leaves nothing has got to its tests and found them. -/
theorem stages_find_tests_of_small_project :
    ∃ ending state visit outcome, (stages (smallContext 0) {} ⟨.ofLocation ["p"], defaultElmVersion⟩).run
        ⟨⟨smallProject, [], []⟩, []⟩ = (ending, state) ∧
      visit ∈ visits (smallContext 0) {} ⟨.ofLocation ["p"], defaultElmVersion⟩ Stage.all {}
        ⟨smallProject, [], []⟩ ∧
      outcome ∈ state.outcomes ∧ outcome.ok = true ∧
      TestsFound (smallContext 0) {} ["p"] ⟨smallProject, [], []⟩ visit outcome := by
  have hplain : Discovery.PlainProject smallProject ["p"] :=
    ⟨Disk.properNames_of_tree (by decide +kernel), ⟨_, rfl⟩, fun more target =>
      Node.at?_ne_link (by decide +kernel) _ target⟩
  have hlocate : smallProject.locateLeniently (.ofString "/p") = .ok (.ofLocation ["p"]) := by
    decide +kernel
  have hpassed : ((visits (smallContext 0) {} ⟨.ofLocation ["p"], defaultElmVersion⟩ Stage.all {}
      ⟨smallProject, [], []⟩).any fun visit => visit.stage = .findTests &&
        ((perform (smallContext 0) {} ⟨.ofLocation ["p"], defaultElmVersion⟩ visit.found visit.stage).run
          visit.world).1.toOption.isSome) = true := by
    decide +kernel
  obtain ⟨visit, hvisit, hboth⟩ := List.any_eq_true.1 hpassed
  obtain ⟨hstage, hsome⟩ := Bool.and_eq_true_iff.1 hboth
  rcases hrun : (stages (smallContext 0) {} ⟨.ofLocation ["p"], defaultElmVersion⟩).run
    ⟨⟨smallProject, [], []⟩, []⟩ with ⟨ending, state⟩
  obtain ⟨outcome, hmem, hone, hfound⟩ :=
    stages_find_tests hplain (by decide +kernel) rfl hlocate hrun hvisit (of_decide_eq_true hstage)
  obtain ⟨result, hcourse⟩ := exists_course_of_stages hrun
  rcases hcourse.exists_outcome hvisit with ⟨_, detail, _, -, hok⟩ | ⟨_, _, herror, -⟩
  · rw [of_decide_eq_true hstage] at hok
    rw [← hone _ hok rfl] at hfound hmem
    exact ⟨ending, state, visit, _, rfl, hvisit, hmem, rfl, hfound⟩
  · rw [herror] at hsome
    cases hsome

end Pipeline

end ElmSuite
