import ElmSuite.CommandLine.Command
import ElmSuite.Proofs.Settings.Merging
import ElmSuite.Proofs.Text.Codes

/-!
Where the values of settings come from.  The words of the command line come first, for the compiler
then the environment, then the settings file, and what is given nowhere has a default.  The request
that a command line makes leads to the settings with these values, or to none.
-/

namespace ElmSuite.CommandLine

/-- The sources of settings: the arguments of the command line, the compiler that the environment
names, and the entries of the settings file. -/
structure Sources where
  arguments : Arguments
  environment : Option String
  entries : List (Settings.Key × Given)

namespace Sources

variable (sources : Sources) (surroundings : Surroundings)

/-- What the settings file gives under a name. -/
def listed? (name : String) : Option Given :=
  sources.entries.lookup (.name (.ofString name))

/-- What is given as the compiler: by the command line, else by an environment in which it is not
empty, else by the settings file. -/
def compiler? : Option Given :=
  match sources.arguments.value? .compiler, sources.environment with
  | some word, _ => some (.text (.ofString word))
  | none, some word =>
      if word.isEmpty then sources.listed? "compiler" else some (.text (.ofString word))
  | none, none => sources.listed? "compiler"

/-- What is given as a number: by the command line, else by the settings file. -/
def number? (flag : Flag) (name : String) : Option Given :=
  match sources.arguments.value? flag with
  | some word => (Whole.ofText? word.toList).map .whole
  | none => sources.listed? name

/-- What is given as the report format: by the command line, else by the settings file. -/
def report? : Option Given :=
  match sources.arguments.value? .report with
  | some word => some (.text (.ofString word))
  | none => sources.listed? "report"

/-- The effective compiler. -/
def compiler : Except Given.Complaint Codes :=
  Given.taken Given.asText (.ofString "elm") sources.compiler?

/-- The effective seed. -/
def seed : Except Given.Complaint Int :=
  Given.taken Given.asWhole (surroundings.seed : Nat) (sources.number? .seed "seed")

/-- The effective number of runs of a fuzz test. -/
def fuzz : Except Given.Complaint Int :=
  Given.taken Given.asWhole 100 (sources.number? .fuzz "fuzz")

/-- The effective number of workers. -/
def workers : Except Given.Complaint Int :=
  Given.taken Given.asWhole (Settings.workersFor surroundings.processors : Nat)
    (sources.number? .workers "workers")

/-- The effective report format. -/
def report : Except Given.Complaint Codes :=
  Given.taken Given.asText (.ofString "console") sources.report?

/-- Settings with the effective values. -/
structure Decides (settings : Settings) : Prop where
  compiler : sources.compiler = .ok settings.compiler
  seed : sources.seed surroundings = .ok (settings.seed : Int)
  fuzz : sources.fuzz = .ok (settings.fuzz : Int)
  workers : sources.workers surroundings = .ok (settings.workers : Int)
  report : sources.report = .ok settings.report

/-- An effective number is out of its range. -/
inductive OutOfRange : Prop
  | seed {value : Int} (h : sources.seed surroundings = .ok value)
      (hrange : value < 0 ∨ seedBound ≤ value) : OutOfRange
  | fuzz {value : Int} (h : sources.fuzz = .ok value) (hrange : value < 1) : OutOfRange
  | workers {value : Int} (h : sources.workers surroundings = .ok value) (hrange : value < 1) :
      OutOfRange

/-- The effective report format is not supported. -/
def Unsupported : Prop :=
  ∃ codes, sources.report = .ok codes ∧ ∀ reporter : Reporter, codes ≠ .ofString reporter.name

variable {sources surroundings}

/-- No settings have a value that is out of range. -/
theorem Decides.not_outOfRange {settings : Settings} (h : sources.Decides surroundings settings) :
    ¬ sources.OutOfRange surroundings := by
  intro hout
  have hseed := settings.seed_lt
  have hfuzz := settings.fuzz_pos
  have hworkers := settings.workers_pos
  cases hout with
  | seed hvalue hrange =>
      rw [h.seed] at hvalue
      cases hvalue
      omega
  | fuzz hvalue hrange =>
      rw [h.fuzz] at hvalue
      cases hvalue
      omega
  | workers hvalue hrange =>
      rw [h.workers] at hvalue
      cases hvalue
      omega

end Sources

/-! ### What the words of a command line ask for -/

theorem forall_of_forIn_ok {ε α : Type} {f : α → Except ε Unit} {items : List α} {value : PUnit}
    (h : (forIn items PUnit.unit fun item _ => do
      f item
      pure (ForInStep.yield PUnit.unit)) = Except.ok value) : ∀ item ∈ items, f item = .ok () := by
  induction items with
  | nil => simp
  | cons item rest ih =>
      rw [List.forIn_cons, bind_assoc] at h
      obtain ⟨_, hitem, h⟩ := bind_eq_ok.1 h
      rw [List.forall_mem_cons]
      exact ⟨hitem, ih h⟩

theorem Arguments.mem_flags_of_value? {arguments : Arguments} {flag : Flag} {word : String}
    (h : arguments.value? flag = some word) : flag ∈ arguments.flags := by
  obtain ⟨option, hlast, -⟩ := Option.bind_eq_some_iff.1 h
  obtain ⟨hmem, hflag⟩ := List.mem_filter.1 (List.mem_of_getLast? hlast)
  rw [flags, List.mem_eraseDups]
  exact List.mem_map.2 ⟨option, hmem, eq_of_beq hflag⟩

/-- A command line that asks for a run has values that are numbers where they have to be. -/
structure Asks (arguments : Arguments) (environment : Option String) (request : Request) : Prop where
  files : request.files = arguments.files
  compiler : request.compiler = compilerOf arguments environment
  seed : request.seed = whole? arguments .seed
  fuzz : request.fuzz = whole? arguments .fuzz
  workers : request.workers = whole? arguments .workers
  report : request.report = arguments.value? .report
  config : request.config = arguments.value? .config
  numbers : ∀ flag, flag.isNumber = true → ∀ word, arguments.value? flag = some word →
    (Whole.ofText? word.toList).isSome = true

theorem exists_asks_of_ofWords {disk : Disk} {environment : Option String} {words : List String}
    {request : Request} (h : Command.ofWords disk environment words = .ok (.run request)) :
    ∃ arguments, Arguments.ofWords words = .ok arguments ∧ Asks arguments environment request := by
  obtain ⟨arguments, hwords, h⟩ := bind_eq_ok.1 h
  refine ⟨arguments, mapError_eq_ok.1 hwords, ?_⟩
  split at h
  · cases h
  · cases h
  · obtain ⟨_, hchecks, h⟩ := bind_eq_ok.1 h
    cases h
    refine ⟨rfl, rfl, rfl, rfl, rfl, rfl, rfl, fun flag hflag word hword => ?_⟩
    have hcheck := forall_of_forIn_ok hchecks flag (Arguments.mem_flags_of_value? hword)
    unfold checkValue at hcheck
    rw [hword] at hcheck
    dsimp only at hcheck
    rw [if_pos hflag] at hcheck
    split at hcheck
    · assumption
    · cases hcheck

/-! ### The settings of a request -/

theorem lookup_filterMap_cons (name key : String) (value : Option Given)
    (rest : List (String × Option Given)) :
    (((name, value) :: rest).filterMap fun (name, value) => value.map fun given => (name, given)).lookup
        key =
      if key = name then
        value.or ((rest.filterMap fun (name, value) => value.map fun given => (name, given)).lookup key)
      else (rest.filterMap fun (name, value) => value.map fun given => (name, given)).lookup key := by
  cases value with
  | none => simp
  | some given =>
      rw [List.filterMap_cons]
      dsimp only [Option.map_some]
      rw [List.lookup_cons]
      by_cases hname : key = name
      · simp [hname]
      · rw [if_neg hname, beq_false_of_ne hname]

/-- What a request gives for settings. -/
def Request.layer (request : Request) : Settings.Layer :=
  fun name => request.values.lookup name

theorem Request.layer_eq (request : Request) :
    request.layer "compiler" = request.compiler.map Request.values.textOf ∧
      request.layer "seed" = request.seed.map .whole ∧
      request.layer "fuzz" = request.fuzz.map .whole ∧
      request.layer "workers" = request.workers.map .whole ∧
      request.layer "report" = request.report.map Request.values.textOf := by
  unfold layer values
  simp [lookup_filterMap_cons]

theorem layerOf_named (values : List (String × Given)) (name : String) :
    Settings.layerOf (values.map fun (name, given) => (.name (.ofString name), given)) name =
      values.lookup name := by
  unfold Settings.layerOf
  induction values with
  | nil => rfl
  | cons entry rest ih =>
      obtain ⟨other, given⟩ := entry
      rw [List.map_cons, List.lookup_cons, List.lookup_cons, ih]
      by_cases hname : name = other
      · simp [hname]
      · have hkey : Settings.Key.name (.ofString name) ≠ .name (.ofString other) := fun heq =>
          hname (Codes.ofString_injective (Settings.Key.name.inj heq))
        rw [beq_false_of_ne hname, beq_false_of_ne hkey]

theorem layered_of_merge {settings next : Settings} {values : List (String × Given)}
    (h : settings.merge values = .ok next) :
    Settings.Layered (fun name => values.lookup name) settings next := by
  have hlayered := Settings.layered_of_update (mapError_eq_ok.1 h)
  rwa [funext (layerOf_named values)] at hlayered

/-- What a command line gives for settings, and behind it the settings file, is what the sources
give. -/
theorem Asks.layer_or {sources : Sources} {request : Request}
    (h : Asks sources.arguments sources.environment request) :
    (request.layer "compiler").or (sources.listed? "compiler") = sources.compiler? ∧
      (request.layer "seed").or (sources.listed? "seed") = sources.number? .seed "seed" ∧
      (request.layer "fuzz").or (sources.listed? "fuzz") = sources.number? .fuzz "fuzz" ∧
      (request.layer "workers").or (sources.listed? "workers") = sources.number? .workers "workers" ∧
      (request.layer "report").or (sources.listed? "report") = sources.report? := by
  obtain ⟨hcompiler, hseed, hfuzz, hworkers, hreport⟩ := request.layer_eq
  have hnumber (flag : Flag) (name : String) (hflag : flag.isNumber = true) :
      ((whole? sources.arguments flag).map Given.whole).or (sources.listed? name) =
        sources.number? flag name := by
    unfold whole? Sources.number?
    cases hword : sources.arguments.value? flag with
    | none => rfl
    | some word =>
        obtain ⟨value, hvalue⟩ := Option.isSome_iff_exists.1 (h.numbers flag hflag word hword)
        dsimp only
        rw [Option.bind_some, hvalue]
        rfl
  refine ⟨?_, ?_, ?_, ?_, ?_⟩
  · rw [hcompiler, h.compiler, compilerOf, Sources.compiler?]
    cases sources.arguments.value? .compiler with
    | some word => rfl
    | none =>
        cases sources.environment with
        | none => rfl
        | some word =>
            dsimp only
            rw [Option.filter_some]
            cases word.isEmpty <;> rfl
  · rw [hseed, h.seed, hnumber .seed "seed" rfl]
  · rw [hfuzz, h.fuzz, hnumber .fuzz "fuzz" rfl]
  · rw [hworkers, h.workers, hnumber .workers "workers" rfl]
  · rw [hreport, h.report, Sources.report?]
    cases sources.arguments.value? .report <;> rfl

/-- The settings of a request have the effective values. -/
theorem Asks.decides {arguments : Arguments} {environment : Option String} {request : Request}
    {surroundings : Surroundings} {disk : Disk} {settings : Settings}
    (h : Asks arguments environment request)
    (hsettings : request.settings surroundings disk = .ok settings) :
    Sources.Decides ⟨arguments, environment, Settings.fileEntries disk (arguments.value? .config)⟩
      surroundings settings := by
  obtain ⟨loaded, hload, hmerge⟩ := bind_eq_ok.1 hsettings
  rw [h.config] at hload
  have hlayered := (Settings.layered_of_load hload).over (layered_of_merge (mapError_eq_ok.1 hmerge))
  obtain ⟨hcompiler, hseed, hfuzz, hworkers, hreport⟩ := Asks.layer_or
    (show Asks (Sources.mk arguments environment
      (Settings.fileEntries disk (arguments.value? .config))).arguments _ request from h)
  exact
    { compiler := by
        rw [Sources.compiler, ← hcompiler]
        exact hlayered.compiler
      seed := by
        rw [Sources.seed, ← hseed]
        exact hlayered.seed
      fuzz := by
        rw [Sources.fuzz, ← hfuzz]
        exact hlayered.fuzz
      workers := by
        rw [Sources.workers, ← hworkers]
        exact hlayered.workers
      report := by
        rw [Sources.report, ← hreport]
        exact hlayered.report }

/-- What a request gives for settings, as overrides with all of their names. -/
def Request.overrides (request : Request) : Overrides where
  entries :=
    [ (.ofString "compiler", request.compiler.map Request.values.textOf)
    , (.ofString "seed", request.seed.map Given.whole)
    , (.ofString "fuzz", request.fuzz.map Given.whole)
    , (.ofString "workers", request.workers.map Given.whole)
    , (.ofString "report", request.report.map Request.values.textOf) ]
  keys_nodup := Settings.nodup_names

theorem Request.merge_values (request : Request) (settings : Settings) :
    settings.merge request.values = settings.merged request.overrides := by
  have hentries : (request.values.map fun (name, given) => (Settings.Key.name (.ofString name), given)) =
      Settings.namedEntries request.overrides.given := by
    have hlist (entries : List (String × Option Given)) :
        (entries.filterMap fun (name, value) => value.map fun given => (name, given)).map
            (fun (name, given) => (Settings.Key.name (.ofString name), given)) =
          ((entries.map fun (name, value) => (Codes.ofString name, value)).filterMap
            Overrides.givenEntry?).map fun entry => (.name entry.1, entry.2) := by
      rw [List.map_filterMap, List.filterMap_map, List.map_filterMap]
      congr
      funext ⟨name, value⟩
      cases value <;> rfl
    exact hlist _
  rw [Settings.merged_eq, ← hentries]
  rfl

/-- The settings of a request are loaded ones with overrides on top of them. -/
theorem Request.reachable {request : Request} {surroundings : Surroundings} {disk : Disk}
    {settings : Settings} (h : request.settings surroundings disk = .ok settings) :
    Settings.Reachable surroundings settings := by
  obtain ⟨loaded, hload, hmerge⟩ := bind_eq_ok.1 h
  rw [mapError_eq_ok, request.merge_values] at hmerge
  exact .merged (.load hload) hmerge

/-- What keeps a request from having settings is a mistake of the user, unless it is a fault. -/
theorem Request.failsOnly_settings (request : Request) (surroundings : Surroundings) (disk : Disk) :
    FailsOnly Settings.IsMistake (request.settings surroundings disk) :=
  (Settings.failsOnly_load surroundings disk request.config).bind fun settings _ =>
    Settings.failsOnly_merge settings request.values

end ElmSuite.CommandLine
