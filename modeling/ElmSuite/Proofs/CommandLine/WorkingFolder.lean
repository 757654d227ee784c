import ElmSuite.Proofs.CommandLine.Precedence
import ElmSuite.Proofs.Manifest.NearestRoot
import ElmSuite.Proofs.Run.TargetOrder
import ElmSuite.Proofs.Run.UnreadFolder

/-!
The folder in which the program is started.  It selects a project, the nearest one at or above it, and
matters for nothing else: from all folders that select a project, a command line that names no files has the
same answer, makes the same calls and leaves the same disk.
-/

namespace ElmSuite.CommandLine

open Act ManifestFile Pipeline

/-- A command line, if it can be split, names neither files nor a settings file. -/
def NamesNoFile (words : List String) : Prop :=
  ∀ arguments, Arguments.ofWords words = .ok arguments →
    arguments.files = [] ∧ arguments.value? .config = none

section Words

variable {words : List String}

/-- Only the settings file of a command line is looked up on the disk. -/
theorem checkValue_of_no_config {arguments : Arguments} (h : arguments.value? .config = none)
    (disk other : Disk) (flag : Flag) : checkValue disk arguments flag = checkValue other arguments flag := by
  unfold checkValue
  cases hvalue : arguments.value? flag with
  | none => rfl
  | some value =>
      have hflag : flag ≠ .config := by
        rintro rfl
        rw [h] at hvalue
        cases hvalue
      simp only [if_neg hflag]

theorem NamesNoFile.ofWords_eq (h : NamesNoFile words) (disk other : Disk) (environment : Option String) :
    Command.ofWords disk environment words = Command.ofWords other environment words := by
  unfold Command.ofWords
  cases hwords : Arguments.ofWords words with
  | error cause => rfl
  | ok arguments =>
      have hcheck : checkValue disk arguments = checkValue other arguments :=
        funext (checkValue_of_no_config (h arguments hwords).2 disk other)
      simp only [Except.mapError, ok_bind, hcheck]

/-- What a command line asks for then names no file either. -/
theorem NamesNoFile.request (h : NamesNoFile words) {disk : Disk} {environment : Option String}
    {request : Request} (hcommand : Command.ofWords disk environment words = .ok (.run request)) :
    request.files = [] ∧ request.config = none := by
  obtain ⟨arguments, hwords, hasks⟩ := exists_asks_of_ofWords hcommand
  obtain ⟨hfiles, hconfig⟩ := h arguments hwords
  exact ⟨hasks.files.trans hfiles, hasks.config.trans hconfig⟩

end Words

theorem Request.answer_eq (request : Request) {first second : World} (h : first.lines = second.lines)
    (result : Except Trouble RunResult) : request.answer (result, first) = request.answer (result, second) := by
  have hlines : linesText request.verbose first = linesText request.verbose second := by
    rw [linesText, linesText, h]
  rcases result with (cause | fault) | result <;> simp only [Request.answer, hlines]

variable {context : RunContext} {surroundings : Surroundings} {environment : Option String}
  {words : List String} {first second : World} {root : Path}

/-- A request without files is carried out alike from two folders from which the same project is found. -/
theorem Request.carryOut_alike (request : Request) (surroundings : Surroundings) (htools : context.tools.Placeless)
    (hfiles : request.files = []) (hconfig : request.config = none) (hroot : root.anchor ≠ .here)
    (hsame : first.SameButFolder second) (hfirst : (findRoot "").run first = (.ok root, first))
    (hsecond : (findRoot "").run second = (.ok root, second)) :
    ∃ result first' second', (request.carryOut context surroundings).run first = (result, first') ∧
      (request.carryOut context surroundings).run second = (result, second') ∧
      first'.SameButFolder second' := by
  have hsettings : request.settings surroundings second.disk = request.settings surroundings first.disk := by
    rw [Request.settings, Request.settings, hconfig]
    rfl
  cases hchosen : request.settings surroundings first.disk with
  | error trouble =>
      rw [hchosen] at hsettings
      exact ⟨_, first, second, run_carryOut_of_settings hchosen, run_carryOut_of_settings hsettings, hsame⟩
  | ok settings =>
      rw [hchosen] at hsettings
      rw [run_carryOut hchosen hfirst, run_carryOut hsettings hsecond]
      obtain ⟨result, first', second', hrun, hrun', hkept, -⟩ :=
        ignoresFolder_run htools (show (request.options settings).files = [] from hfiles) hroot first second hsame
      exact ⟨result, first', second', hrun, hrun', hkept⟩

theorem answer_alike (htools : context.tools.Placeless) (hwords : NamesNoFile words)
    (hroot : root.anchor ≠ .here) (hsame : first.SameButFolder second)
    (hfirst : (findRoot "").run first = (.ok root, first))
    (hsecond : (findRoot "").run second = (.ok root, second)) :
    (answer context surroundings environment words first).1 =
        (answer context surroundings environment words second).1 ∧
      (answer context surroundings environment words first).2.SameButFolder
        (answer context surroundings environment words second).2 := by
  unfold answer
  rw [hwords.ofWords_eq second.disk first.disk environment]
  cases hcommand : Command.ofWords first.disk environment words with
  | error rejection => cases rejection <;> exact ⟨rfl, hsame⟩
  | ok command =>
      cases command with
      | showVersion => exact ⟨rfl, hsame⟩
      | showHelp => exact ⟨rfl, hsame⟩
      | run request =>
          obtain ⟨hfiles, hconfig⟩ := hwords.request hcommand
          obtain ⟨result, first', second', hrun, hrun', hkept⟩ :=
            request.carryOut_alike surroundings htools hfiles hconfig hroot hsame hfirst hsecond
          dsimp only
          rw [hrun, hrun']
          exact ⟨request.answer_eq hkept.lines result, hkept⟩

/-- The search from a working directory that selects a project finds it. -/
theorem findRoot_of_enter {world : World} {given : String} {here : Disk} (hdisk : world.disk.ProperNames)
    (henter : world.disk.enter given = .ok here) (h : Selects here (.ofLocation here.cwd) root) :
    (findRoot "").run { world with disk := here } = (.ok root, { world with disk := here }) := by
  obtain ⟨location, entries, hfind, rfl⟩ := Disk.exists_find_of_enter henter
  have hfolder : world.disk.nodeAt? location = some (.folder entries) := Disk.nodeAt?_of_find_eq hfind
  have hstart : (world.disk.seenFrom location).locateLeniently (.ofString "") = .ok (.ofLocation location) :=
    locateLeniently_empty (world.disk.seenFrom location) hdisk hfolder
  exact ((searches_of_locateLeniently { world with disk := world.disk.seenFrom location } hstart).found root).2 h

/-- From a start whose links can be followed, the search for a project goes up to the nearest folder that
holds a manifest.  And a command line that names no file has the same answer from all working directories
that select a project, however they are entered; it makes the same calls and leaves the same disk. -/
theorem working_folder_selects (htools : context.tools.Placeless) (hwords : NamesNoFile words) :
    (∀ start current (world : World), world.disk.locateLeniently (.ofString start) = .ok current →
      Searches start current world) ∧
    ∀ (world : World) given given' here there root, world.disk.ProperNames →
      world.disk.enter given = .ok here → world.disk.enter given' = .ok there →
      Selects here (.ofLocation here.cwd) root → Selects there (.ofLocation there.cwd) root →
      (answer context surroundings environment words { world with disk := here }).1 =
          (answer context surroundings environment words { world with disk := there }).1 ∧
        (answer context surroundings environment words { world with disk := here }).2.SameButFolder
          (answer context surroundings environment words { world with disk := there }).2 := by
  refine ⟨fun _ _ world h => searches_of_locateLeniently world h, ?_⟩
  intro world given given' here there root hdisk hhere hthere hselects hselects'
  have hroot : root.anchor ≠ .here := by
    rw [← hselects.nearest.above.1]
    exact Anchor.noConfusion
  have hsame : World.SameButFolder { world with disk := here } { world with disk := there } := by
    obtain ⟨_, _, -, rfl⟩ := Disk.exists_find_of_enter hhere
    obtain ⟨_, _, -, rfl⟩ := Disk.exists_find_of_enter hthere
    exact ⟨rfl, rfl, rfl⟩
  exact answer_alike htools hwords hroot hsame (findRoot_of_enter hdisk hhere hselects)
    (findRoot_of_enter hdisk hthere hselects')

/-- From the root of a project and through a link to its tests, tests that do not compile are reported
alike. -/
theorem working_folder_selects_linked_project :
    ∃ here there, linkedProject.enter "/p" = .ok here ∧ linkedProject.enter "/p/again" = .ok there ∧
      here.cwd = ["p"] ∧ there.cwd = ["p", "tests"] ∧
      (answer (smallContext 1) drawnOne none [] ⟨here, [], []⟩).1 =
        (answer (smallContext 1) drawnOne none [] ⟨there, [], []⟩).1 ∧
      (answer (smallContext 1) drawnOne none [] ⟨here, [], []⟩).2.SameButFolder
        (answer (smallContext 1) drawnOne none [] ⟨there, [], []⟩).2 := by
  have hdisk : linkedProject.ProperNames := Disk.properNames_of_tree (by decide +kernel)
  have henters {given : String} {location : List String}
      (h : (linkedProject.enter given).toOption.map Disk.cwd = some location) :
      linkedProject.enter given = .ok (linkedProject.seenFrom location) := by
    cases henter : linkedProject.enter given with
    | error fault =>
        rw [henter] at h
        cases h
    | ok here =>
        obtain ⟨found, _, -, rfl⟩ := Disk.exists_find_of_enter henter
        rw [henter] at h
        cases h
        rfl
  have hselects {location : List String}
      (hstart : (linkedProject.seenFrom location).locateLeniently (.ofString "") = .ok (.ofLocation location))
      (h : ((findRoot "").run ⟨linkedProject.seenFrom location, [], []⟩).1.toOption = some (.ofLocation ["p"])) :
      Selects (linkedProject.seenFrom location) (.ofLocation location) (.ofLocation ["p"]) := by
    obtain ⟨later, hrun⟩ := Act.exists_run_of_toOption h
    have hsame := run_findRoot "" ⟨linkedProject.seenFrom location, [], []⟩
    rw [hrun] at hsame
    rw [show later = _ from hsame] at hrun
    exact ((searches_of_locateLeniently ⟨linkedProject.seenFrom location, [], []⟩ hstart).found _).1 hrun
  have hhere : linkedProject.enter "/p" = .ok (linkedProject.seenFrom ["p"]) := henters (by decide +kernel)
  have hthere : linkedProject.enter "/p/again" = .ok (linkedProject.seenFrom ["p", "tests"]) :=
    henters (by decide +kernel)
  have htools : (smallContext 1).tools.Placeless := ⟨fun _ _ _ => rfl, fun _ _ => rfl, fun _ _ => rfl⟩
  have hwords : NamesNoFile [] := by
    intro arguments h
    cases h
    exact ⟨rfl, rfl⟩
  refine ⟨_, _, hhere, hthere, rfl, rfl, ?_⟩
  exact (working_folder_selects htools hwords).2 ⟨linkedProject, [], []⟩ "/p" "/p/again" _ _ _ hdisk hhere hthere
    (hselects (by decide +kernel) (by decide +kernel)) (hselects (by decide +kernel) (by decide +kernel))

end ElmSuite.CommandLine
