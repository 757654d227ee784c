import ElmSuite.Proofs.CommandLine.ExitCode
import ElmSuite.Proofs.CommandLine.Sources
import ElmSuite.Proofs.Run.GeneratedScripts

/-!
What becomes of the effective values of the settings.  Values that cannot be are refused before
anything is written or any tool is asked for, whatever else the command line says.  A run that goes
well has called the effective compiler each time, and has written the effective numbers and report
format to the scripts that node runs, the same seed and the same number of runs to both.
-/

namespace ElmSuite

open Act

/-! ### The search for the project root -/

namespace ManifestFile

/-- Looking for a project root changes nothing. -/
theorem run_findRoot (start : String) (world : World) : ((findRoot start).run world).2 = world := by
  rw [findRoot, Act.locateLeniently, run_bind, run_look]
  cases world.disk.locateLeniently (.ofString start) with
  | error fault => rfl
  | ok current =>
      dsimp only [Except.mapError]
      rw [run_bind, run_look]
      cases firstWithManifest world.disk (upwards current.parts.length current) with
      | error fault => rfl
      | ok found => cases found <;> rfl

/-- A project root that is not found is a mistake of the surroundings. -/
theorem exitCode_of_findRoot {start : String} {world after : World} {cause : Failure}
    (h : (findRoot start).run world = (.error (.failure cause), after)) : cause.exitCode = 2 := by
  rw [findRoot, run_bind_eq_error] at h
  rcases h with h | ⟨current, between, -, h⟩
  · rw [Act.locateLeniently, run_look] at h
    cases hlocate : world.disk.locateLeniently (.ofString start) with
    | error fault =>
        rw [hlocate] at h
        cases h
    | ok current =>
        rw [hlocate] at h
        cases h
  · rw [run_bind, run_look] at h
    cases hfirst : firstWithManifest between.disk (upwards current.parts.length current) with
    | error fault =>
        rw [hfirst] at h
        cases h
    | ok found =>
        rw [hfirst] at h
        cases found <;> cases h
        rfl

end ManifestFile

/-! ### Report formats by name -/

theorem Reporter.name_of_ofName {value : String} {reporter : Reporter} (h : ofName value = .ok reporter) :
    reporter.name = value := by
  unfold ofName at h
  split at h
  · next hfind =>
    cases h
    have hname := List.find?_some hfind
    exact eq_of_beq hname
  · cases h

/-- A report format is known by its name, which is a text. -/
theorem Reporter.eq_of_ofName_lossy {codes : Codes} {reporter : Reporter}
    (h : ofName codes.lossy = .ok reporter) : codes = .ofString reporter.name := by
  refine Codes.eq_ofString_of_lossy (name_of_ofName h).symm ?_
  cases reporter <;> decide

theorem Reporter.exitCode_of_ofName {value : String} {cause : Failure}
    (h : ofName value = .error cause) : cause.exitCode = 2 := by
  unfold ofName at h
  split at h
  · cases h
  · cases h
    rfl

namespace CommandLine

open Pipeline

/-- No file is written and no tool is asked for. -/
structure Untouched (before after : World) : Prop where
  disk : after.disk = before.disk
  calls : after.calls = before.calls

theorem Untouched.refl (world : World) : Untouched world world :=
  ⟨rfl, rfl⟩

/-- A command line is refused. -/
structure Refuses (before : World) (answered : Answer × World) : Prop
    extends Untouched before answered.2 where
  exitCode : answered.1.exitCode = 2

/-- The search for the canonical root of the project. -/
def searchRoot : Act Path := do
  Act.locateLeniently (← ManifestFile.findRoot "")

/-- What a run that went well has made of its settings. -/
structure Uses (context : RunContext) (options : RunOptions) (layout : Layout) (settings : Settings)
    (start final : World) : Prop where
  /-- The effective compiler is called three times. -/
  called : ∃ manifest files, final.calls = start.calls ++
    [ .solver (Solver.command Solver.defaultExecutable Solver.extraPackages layout.manifest.toString)
        manifest
    , .compiler (Compiler.command settings.compiler.lossy Compiler.noOutput.toString files)
        layout.root.toString
    , .compiler (Compiler.command settings.compiler.lossy layout.runnerScript.toString
        ["src/Runner.elm"]) layout.root.toString
    , .compiler (Compiler.command settings.compiler.lossy layout.reporterScript.toString
        [(context.installation.assetPath .reporter).toString]) layout.root.toString
    , .node [NodeProcess.defaultExecutable, NodeProcess.supervisorScript] layout.root.toString
        (NodeProcess.input context.tools.node layout.nodeRunner.toString) ]
  /-- The worker and the supervisor are written with the effective numbers and report format. -/
  written : ∃ reporter runner supervisor, settings.report = .ofString reporter.name ∧
    nodeRunnerText settings.seed settings.fuzz = .ok runner ∧
    nodeSupervisorText settings.workers settings.seed settings.fuzz reporter = .ok supervisor ∧
    (flagsLine settings.seed settings.fuzz).toList <:+: runner ∧
    (constantLines settings.workers settings.seed settings.fuzz reporter).toList <:+: supervisor ∧
    Leaves context options layout start final .generateNodeRunner layout.nodeRunner runner ∧
    Leaves context options layout start final .generateSupervisor layout.nodeSupervisor supervisor

/-- What becomes of the settings of a request, which come from certain sources. -/
structure Heeds (context : RunContext) (surroundings : Surroundings) (request : Request)
    (sources : Sources) (world : World) (answered : Answer × World) : Prop where
  /-- A settings file that is rejected is not accepted for what the command line says. -/
  rejected : ∀ cause,
    Settings.load surroundings world.disk (sources.arguments.value? .config) =
      .error (.failure cause) → Refuses world answered
  /-- A number out of its range is refused, unless a fault keeps the settings file from being
  loaded. -/
  outOfRange : sources.OutOfRange surroundings → Untouched world answered.2 ∧
    ((∀ fault, Settings.load surroundings world.disk (sources.arguments.value? .config) ≠
      .error (.fault fault)) → answered.1.exitCode = 2)
  /-- So is a report format that is not supported, unless a fault ends the program before it is
  looked at. -/
  unsupported : sources.Unsupported → Untouched world answered.2 ∧
    ((∀ fault, Settings.load surroundings world.disk (sources.arguments.value? .config) ≠
      .error (.fault fault)) →
    (∀ fault, searchRoot.run world ≠ (.error (.fault fault), world)) → answered.1.exitCode = 2)
  /-- A run that goes well uses the effective values. -/
  used : ∀ result, (request.carryOut context surroundings).run world = (.ok result, answered.2) →
    result.succeeded = true → ∃ settings canonical, sources.Decides surroundings settings ∧
      searchRoot.run world = (.ok canonical, world) ∧
      Uses context (request.options settings) ⟨canonical, defaultElmVersion⟩ settings world answered.2

section Request

variable {context : RunContext} {surroundings : Surroundings} {request : Request} {world start : World}
  {settings : Settings} {canonical : Path}

theorem Request.Launches.start_eq (h : request.Launches surroundings world settings canonical start) :
    start = world := by
  obtain ⟨root, hroot, -⟩ := h.projectRoot
  have hsame := ManifestFile.run_findRoot "" world
  rwa [hroot] at hsame

theorem Request.Launches.run_searchRoot
    (h : request.Launches surroundings world settings canonical start) :
    searchRoot.run world = (.ok canonical, world) := by
  obtain ⟨root, hroot, hcanonical⟩ := h.projectRoot
  obtain rfl := h.start_eq
  rw [searchRoot, run_bind, hroot]
  dsimp only
  rw [Act.locateLeniently, run_look, hcanonical]
  rfl

/-- A request that is carried out and goes well has succeeded in all its steps. -/
theorem Request.succeeds_of_run {result : RunResult} {final : World}
    (hrun : (request.carryOut context surroundings).run world = (.ok result, final))
    (hresult : result.succeeded = true) : request.Succeeds context surroundings world := by
  have hreturns : request.Returns context surroundings world := by
    intro fault after hfault
    rw [hrun] at hfault
    cases hfault
  rcases hreturns.succeeds_or_fails with hsucceeds | ⟨step, cause, hfails⟩
  · exact hsucceeds
  · rcases hfails.exists_report with ⟨after, herror⟩ | ⟨result', final', stage, hrun', hfailure⟩
    · rw [hrun] at herror
      cases herror
    · rw [hrun] at hrun'
      cases hrun'
      rw [RunResult.succeeded, hfailure] at hresult
      cases hresult

/-- What a request that succeeds has made of its settings. -/
theorem Request.Succeeds.exists_uses {result : RunResult} {final : World}
    (h : request.Succeeds context surroundings world)
    (hrun : (request.carryOut context surroundings).run world = (.ok result, final)) :
    ∃ settings canonical, request.settings surroundings world.disk = .ok settings ∧
      searchRoot.run world = (.ok canonical, world) ∧
      Uses context (request.options settings) ⟨canonical, defaultElmVersion⟩ settings world final := by
  obtain ⟨settings, canonical, start, found, final', outcomes, hlaunch, hcourse, hrun'⟩ :=
    h.exists_course
  rw [hrun] at hrun'
  cases hrun'
  obtain rfl := hlaunch.start_eq
  obtain ⟨root, -, hcanonical⟩ := hlaunch.projectRoot
  obtain ⟨reporter, runner, supervisor, hreporter, hrunner, hsupervisor, hworker, hprocess⟩ :=
    hcourse.leaves_scripts (anchor_of_locateLeniently hcanonical)
  refine ⟨settings, canonical, hlaunch.settings, hlaunch.run_searchRoot, ?_, ?_⟩
  · have hstages := hcourse.map_stage fun _ => by simp
    rw [hcourse.map_stage_of_ok rfl] at hstages
    obtain ⟨manifest, files, hcalls⟩ := exists_filterMap_call? hstages.symm
    exact ⟨manifest, files, by rw [hcourse.calls, hcalls]; rfl⟩
  · exact ⟨reporter, runner, supervisor, Reporter.eq_of_ofName_lossy hreporter, hrunner, hsupervisor,
      flagsLine_within hrunner, constantLines_within hsupervisor, hworker, hprocess⟩

/-- A report format that is not supported ends a run at its first stage. -/
theorem Request.Launches.run_of_unsupported
    (h : request.Launches surroundings world settings canonical start)
    (hreport : ∀ reporter : Reporter, settings.report ≠ .ofString reporter.name)
    (context : RunContext) :
    ∃ cause final, cause.exitCode = 2 ∧ Untouched world final ∧
      (request.carryOut context surroundings).run world =
        (.ok ⟨[.failed .validateOptions cause], none⟩, final) := by
  obtain ⟨ending, final, outcomes, hcourse, hrun⟩ := h.exists_course context
  obtain rfl := h.start_eq
  have hno (value : Findings × Option String) (after : World) :
      (perform context (request.options settings) ⟨canonical, defaultElmVersion⟩ {}
        .validateOptions).run start ≠ (.ok value, after) := by
    intro hvalid
    obtain ⟨reporter, hreporter, -⟩ := run_map_eq_ok.1 hvalid
    exact hreport reporter (Reporter.eq_of_ofName_lossy (run_ofFailure_eq_ok.1 hreporter).1)
  have herror {trouble : Trouble} {after : World}
      (hrun : (perform context (request.options settings) ⟨canonical, defaultElmVersion⟩ {}
        .validateOptions).run start = (.error trouble, after)) :
      after = start ∧ ∃ cause, trouble = .failure cause ∧ cause.exitCode = 2 := by
    have hvalid := run_map_eq_error.1 hrun
    rw [run_ofFailure] at hvalid
    cases hname : Reporter.ofName (request.options settings).report with
    | ok reporter =>
        rw [hname] at hvalid
        cases hvalid
    | error cause =>
        rw [hname] at hvalid
        cases hvalid
        exact ⟨rfl, cause, rfl, Reporter.exitCode_of_ofName hname⟩
  cases hcourse with
  | passed hvalid hrest => exact absurd hvalid (hno _ _)
  | failed hvalid hcalls hdisk hcause =>
      obtain ⟨rfl, cause, rfl, hcode⟩ := herror hvalid
      cases hcause
      exact ⟨_, final, hcode, ⟨hdisk, hcalls⟩, hrun⟩
  | left hvalid hfault =>
      obtain ⟨-, cause, hcause, -⟩ := herror hvalid
      cases hcause

/-- A request whose report format is not supported is refused, unless a fault ends the program
first. -/
theorem Request.untouched_of_unsupported
    (hsettings : request.settings surroundings world.disk = .ok settings)
    (hreport : ∀ reporter : Reporter, settings.report ≠ .ofString reporter.name) :
    Untouched world ((request.carryOut context surroundings).run world).2 ∧
      ((∀ fault, searchRoot.run world ≠ (.error (.fault fault), world)) →
        (request.answer ((request.carryOut context surroundings).run world)).exitCode = 2) := by
  have hsame := ManifestFile.run_findRoot "" world
  rcases hroot : (ManifestFile.findRoot "").run world with ⟨(cause | fault) | root, start⟩
  · rw [hroot] at hsame
    rw [run_carryOut_of_projectRoot hsettings hroot, show start = world from hsame]
    exact ⟨.refl world, fun _ => ManifestFile.exitCode_of_findRoot hroot⟩
  · rw [hroot] at hsame
    rw [run_carryOut_of_projectRoot hsettings hroot, show start = world from hsame]
    refine ⟨.refl world, fun hno => absurd ?_ (hno fault)⟩
    rw [searchRoot, run_bind, hroot, show start = world from hsame]
  · rw [hroot] at hsame
    obtain rfl : start = world := hsame
    cases hlocate : start.disk.locateLeniently root with
    | error fault =>
        have hlost : (Act.locateLeniently root).run start = (.error (.fault fault), start) := by
          rw [Act.locateLeniently, run_look, hlocate]
          rfl
        rw [run_carryOut hsettings hroot, Pipeline.run, run_bind, hlost]
        refine ⟨.refl start, fun hno => absurd ?_ (hno fault)⟩
        rw [searchRoot, run_bind, hroot]
        exact hlost
    | ok canonical =>
        have hlaunch : request.Launches surroundings start settings canonical start :=
          ⟨hsettings, root, hroot, hlocate⟩
        obtain ⟨cause, final, hcode, huntouched, hrun⟩ := hlaunch.run_of_unsupported hreport context
        rw [hrun]
        exact ⟨huntouched, fun _ => hcode⟩

/-- A request that has no settings is refused, unless that is for a fault. -/
theorem Request.untouched_of_settings {trouble : Trouble}
    (h : request.settings surroundings world.disk = .error trouble) :
    Untouched world ((request.carryOut context surroundings).run world).2 ∧
      ((∀ fault, trouble ≠ .fault fault) →
        (request.answer ((request.carryOut context surroundings).run world)).exitCode = 2) := by
  rw [run_carryOut_of_settings h]
  refine ⟨.refl world, fun hno => ?_⟩
  cases trouble with
  | failure cause => exact request.failsOnly_settings surroundings world.disk _ h cause rfl
  | fault fault => exact absurd rfl (hno fault)

/-- A fault that keeps a request from having settings comes from loading its file. -/
theorem Request.load_of_settings_fault {fault : Fault} {disk : Disk}
    (h : request.settings surroundings disk = .error (.fault fault)) :
    Settings.load surroundings disk request.config = .error (.fault fault) := by
  unfold Request.settings at h
  cases hload : Settings.load surroundings disk request.config with
  | error trouble =>
      rw [hload] at h
      exact h
  | ok settings =>
      rw [hload, ok_bind] at h
      cases hmerge : settings.merge request.values with
      | error cause =>
          rw [hmerge] at h
          cases h
      | ok merged =>
          rw [hmerge] at h
          cases h

end Request

theorem answer_of_run {context : RunContext} {surroundings : Surroundings} {environment : Option String}
    {words : List String} {world : World} {request : Request}
    (h : Command.ofWords world.disk environment words = .ok (.run request)) :
    answer context surroundings environment words world =
      (request.answer ((request.carryOut context surroundings).run world),
        ((request.carryOut context surroundings).run world).2) := by
  rw [answer, h]

/-- A command line heeds the precedence of the sources of its settings: a misuse is refused, and a
request for a run is refused or carried out with the effective values. -/
theorem answer_heeds (context : RunContext) (surroundings : Surroundings) (environment : Option String)
    (words : List String) (world : World) :
    (∀ cause, Command.ofWords world.disk environment words = .error (.misuse cause) →
      Refuses world (answer context surroundings environment words world)) ∧
    ((∀ request, Command.ofWords world.disk environment words ≠ .ok (.run request)) →
      Untouched world (answer context surroundings environment words world).2) ∧
    ∀ request, Command.ofWords world.disk environment words = .ok (.run request) →
      ∃ arguments, Arguments.ofWords words = .ok arguments ∧
        Heeds context surroundings request
          ⟨arguments, environment, Settings.fileEntries world.disk (arguments.value? .config)⟩ world
          (answer context surroundings environment words world) := by
  refine ⟨fun cause hmisuse => ?_, fun hidle => ?_, fun request hcommand => ?_⟩
  · rw [answer, hmisuse]
    exact ⟨.refl world, rfl⟩
  · unfold answer
    split
    · exact .refl world
    · exact .refl world
    · exact .refl world
    · exact .refl world
    · next request hcommand => exact absurd hcommand (hidle request)
  obtain ⟨arguments, hwords, hasks⟩ := exists_asks_of_ofWords hcommand
  rw [answer_of_run hcommand]
  refine ⟨arguments, hwords, ?_⟩
  have hfaultless (hload : ∀ fault, Settings.load surroundings world.disk (arguments.value? .config) ≠
      .error (.fault fault)) {trouble : Trouble}
      (h : request.settings surroundings world.disk = .error trouble) (fault : Fault) :
      trouble ≠ .fault fault := by
    rintro rfl
    rw [← hasks.config] at hload
    exact hload fault (request.load_of_settings_fault h)
  exact
    { rejected := fun cause hload => by
        rw [← hasks.config] at hload
        have hsettings : request.settings surroundings world.disk = .error (.failure cause) := by
          rw [Request.settings, hload]
          rfl
        obtain ⟨huntouched, hcode⟩ :=
          request.untouched_of_settings hsettings
        exact ⟨huntouched, hcode fun fault => by simp⟩
      outOfRange := fun hout => by
        cases hsettings : request.settings surroundings world.disk with
        | ok settings => exact absurd hout (hasks.decides hsettings).not_outOfRange
        | error trouble =>
            obtain ⟨huntouched, hcode⟩ := request.untouched_of_settings hsettings
            exact ⟨huntouched, fun hload => hcode (hfaultless hload hsettings)⟩
      unsupported := fun hunsupported => by
        obtain ⟨codes, hcodes, hnone⟩ := hunsupported
        cases hsettings : request.settings surroundings world.disk with
        | ok settings =>
            have hreport := (hasks.decides hsettings).report
            rw [hcodes, Except.ok.injEq] at hreport
            obtain ⟨huntouched, hcode⟩ := request.untouched_of_unsupported hsettings (hreport ▸ hnone)
            exact ⟨huntouched, fun _ => hcode⟩
        | error trouble =>
            obtain ⟨huntouched, hcode⟩ := request.untouched_of_settings hsettings
            exact ⟨huntouched, fun hload _ => hcode (hfaultless hload hsettings)⟩
      used := fun result hrun hresult => by
        obtain ⟨settings, canonical, hsettings, hsearch, huses⟩ :=
          (Request.succeeds_of_run hrun hresult).exists_uses hrun
        exact ⟨settings, canonical, hasks.decides hsettings, hsearch, huses⟩ }

/-- The small project with a settings file, seen from its root. -/
def configuredWorld : World where
  disk :=
    let tests : Node :=
      .folder [("A.elm", .file (Text.Utf8.encode "module A exposing (a)\na =\n".toList))]
    let root : Node :=
      .folder
        [ ("elm.json", .file (Text.Utf8.encode smallManifest))
        , ("s.yaml", .file (Text.Utf8.encode "seed: 7\nfuzz: 5\n".toList))
        , ("tests", tests) ]
    ⟨.folder [("p", root)], ["p"]⟩

/-- A compiled runner that can be patched. -/
def smallScript : List Char :=
  [ "var $elm_explorations$test$Test$Internal$UnitTest=function(a)\x7breturn \x7b$:0,a:a\x7d;\x7d;\n",
    "var $author$project$Runner$check=$author$project$Runner$checkHelperReplaceMe___;\n" ].flatMap
    String.toList

/-- Surroundings in which the second call of the compiler leaves the compiled runner. -/
def patchableContext : RunContext where
  tools :=
    { smallContext 0 |>.tools with
      compiler := fun n => if n = 1 then { output := some (.file (Text.Utf8.encode smallScript)) } else {} }
  installation := ⟨.ofString "/i"⟩

/-- A command line that names a settings file and a number of runs. -/
def configuredWords (fuzz : String) : List String :=
  ["--fuzz", fuzz, "--config", "s.yaml"]

/-- The sources of its settings, with a compiler from the environment. -/
def configuredSources (fuzz : String) : Sources where
  arguments := ⟨[(.fuzz, some fuzz), (.config, some "s.yaml")], []⟩
  environment := some "elm-env"
  entries := Settings.fileEntries configuredWorld.disk (some "s.yaml")

/-- The request that it makes. -/
def configuredRequest (fuzz : Int) : Request :=
  ⟨[], some "elm-env", none, some fuzz, none, none, some "s.yaml", false⟩

/-- The request is carried out and goes well. -/
theorem succeeded_of_configuredRequest :
    (((configuredRequest 9).carryOut patchableContext drawnOne).run
      configuredWorld).1.toOption.map RunResult.succeeded = some true := by
  -- Nothing looks at the texts of the generated scripts, so they need not be computed.
  unfold Request.carryOut Pipeline.run runAt stages
  simp only [Generation.runner_eq, Generation.nodeRunner_eq, Generation.nodeSupervisor_eq]
  decide +kernel

/-- A run with a value from each source goes well and uses them all; with a number of runs that cannot
be, the command line is refused. -/
theorem answer_heeds_of_settings_file :
    (∃ result settings canonical,
      ((configuredRequest 9).carryOut patchableContext drawnOne).run configuredWorld =
        (.ok result, (answer patchableContext drawnOne (some "elm-env") (configuredWords "9")
          configuredWorld).2) ∧
      result.succeeded = true ∧
      (settings.compiler, settings.seed, settings.fuzz, settings.workers, settings.report) =
        (.ofString "elm-env", 7, 9, 1, .ofString "console") ∧
      Uses patchableContext ((configuredRequest 9).options settings) ⟨canonical, defaultElmVersion⟩
        settings configuredWorld (answer patchableContext drawnOne (some "elm-env")
          (configuredWords "9") configuredWorld).2) ∧
    Refuses configuredWorld
      (answer patchableContext drawnOne (some "elm-env") (configuredWords "0") configuredWorld) := by
  constructor
  · have hcommand : Command.ofWords configuredWorld.disk (some "elm-env") (configuredWords "9") =
        .ok (.run (configuredRequest 9)) := by
      decide +kernel
    have hsplit : Arguments.ofWords (configuredWords "9") = .ok (configuredSources "9").arguments := by
      decide +kernel
    obtain ⟨arguments, hwords, hheeds⟩ := (answer_heeds patchableContext drawnOne (some "elm-env")
      (configuredWords "9") configuredWorld).2.2 _ hcommand
    rw [hsplit, Except.ok.injEq] at hwords
    subst hwords
    have hanswer : answer patchableContext drawnOne (some "elm-env") (configuredWords "9")
        configuredWorld = _ := answer_of_run hcommand
    have hends := succeeded_of_configuredRequest
    rcases hrun : ((configuredRequest 9).carryOut patchableContext drawnOne).run configuredWorld with
      ⟨trouble | result, final⟩
    · rw [hrun] at hends
      cases hends
    rw [hrun] at hends hanswer
    have hsucceeded : result.succeeded = true := Option.some.inj hends
    rw [hanswer] at hheeds ⊢
    obtain ⟨settings, canonical, hdecides, -, huses⟩ := hheeds.used result hrun hsucceeded
    refine ⟨result, settings, canonical, rfl, hsucceeded, ?_, huses⟩
    have hcompiler : (configuredSources "9").compiler = .ok (.ofString "elm-env") := by decide +kernel
    have hseed : (configuredSources "9").seed drawnOne = .ok 7 := by decide +kernel
    have hfuzz : (configuredSources "9").fuzz = .ok 9 := by decide +kernel
    have hworkers : (configuredSources "9").workers drawnOne = .ok 1 := by decide +kernel
    have hreport : (configuredSources "9").report = .ok (.ofString "console") := by decide +kernel
    have hvalues : settings.compiler = .ofString "elm-env" ∧ (settings.seed : Int) = 7 ∧
        (settings.fuzz : Int) = 9 ∧ (settings.workers : Int) = 1 ∧
        settings.report = .ofString "console" :=
      ⟨Except.ok.inj (hdecides.compiler.symm.trans hcompiler),
        Except.ok.inj (hdecides.seed.symm.trans hseed), Except.ok.inj (hdecides.fuzz.symm.trans hfuzz),
        Except.ok.inj (hdecides.workers.symm.trans hworkers),
        Except.ok.inj (hdecides.report.symm.trans hreport)⟩
    obtain ⟨hcompiler, hseed, hfuzz, hworkers, hreport⟩ := hvalues
    simp only [Prod.mk.injEq]
    exact ⟨hcompiler, by omega, by omega, by omega, hreport⟩
  · have hcommand : Command.ofWords configuredWorld.disk (some "elm-env") (configuredWords "0") =
        .ok (.run (configuredRequest 0)) := by
      decide +kernel
    have hsplit : Arguments.ofWords (configuredWords "0") = .ok (configuredSources "0").arguments := by
      decide +kernel
    obtain ⟨arguments, hwords, hheeds⟩ := (answer_heeds patchableContext drawnOne (some "elm-env")
      (configuredWords "0") configuredWorld).2.2 _ hcommand
    rw [hsplit, Except.ok.injEq] at hwords
    subst hwords
    have hloads : (Settings.load drawnOne configuredWorld.disk (some "s.yaml")).toOption.isSome = true := by
      decide +kernel
    have hfuzz : (configuredSources "0").fuzz = .ok 0 := by decide +kernel
    obtain ⟨huntouched, hcode⟩ := hheeds.outOfRange (.fuzz hfuzz (by decide))
    refine ⟨huntouched, hcode fun fault hfault => ?_⟩
    rw [show (configuredSources "0").arguments.value? .config = some "s.yaml" from rfl] at hfault
    rw [hfault] at hloads
    cases hloads

end CommandLine

end ElmSuite
