import ElmSuite.Proofs.Run.Visits
import ElmSuite.Proofs.World.Effects
import Mathlib.Data.List.Nodup

/-!
The tools that a run calls.  A stage either asks for one tool, once, or for none, so the calls of a
run are those of the stages that it visits, in their order.
-/

namespace ElmSuite

open Act

/-! ### What happens after a tool is asked for -/

/-- What the compiler puts at its output. -/
def Compiler.leave (reply : CompilerReply) (executable folder output : String) : Act Unit :=
  match reply.output with
  | some content =>
      Act.onBehalf executable (Act.place ((Path.ofString folder).join (.ofString output)) content)
  | none => pure ()

/-- How the compiler exits. -/
def Compiler.exit (reply : CompilerReply) (sources : List String) : Act Unit :=
  if reply.code ≠ 0 then Act.fail (.compilation sources reply.code) else pure ()

/-- What the compiler does, if it starts. -/
def Compiler.respond (reply : CompilerReply) (executable folder output : String)
    (sources : List String) : Act Unit :=
  match reply.refusal with
  | some refusal => Act.failToStart executable (refusal.error executable)
  | none => do
      Act.affect reply.elsewhere
      leave reply executable folder output
      exit reply sources

theorem Compiler.run_compile (reply : Nat → CompilerReply) (executable folder output : String)
    (sources : List String) (world : World) :
    (compile reply executable folder output sources).run world =
      (respond (reply world.compilerCalls) executable folder output sources).run
        { world with
          lines := world.lines ++ [.note part ("Running " ++
            Text.shellLine (command executable output sources) ++ " in " ++ folder)]
          calls := world.calls ++ [.compiler (command executable output sources) folder] } := by
  have hcalls (lines : List Line) : World.compilerCalls { world with lines } = world.compilerCalls :=
    rfl
  simp only [compile, run_bind, run_note, run_get, run_record, hcalls]
  generalize reply world.compilerCalls = answer
  unfold respond leave exit
  cases answer.refusal with
  | some refusal => rfl
  | none => cases answer.output <;> rfl

/-- What the solver does, if it starts. -/
def Solver.respond (reply : SolverReply) (executable : String) : Act Dependencies :=
  match reply.refusal with
  | some refusal => Act.failToStart executable (refusal.error executable)
  | none => do
      Act.affect reply.elsewhere
      Act.ofFailure (readAnswer reply)

theorem Solver.run_solve (reply : SolverReply) (executable : String) (extra : List String)
    (manifest : String) (world : World) :
    (solve reply executable extra manifest).run world =
      (respond reply executable).run
        { world with
          lines := world.lines ++ [.note part ("Running " ++
            Text.shellLine (command executable extra manifest))]
          calls := world.calls ++ [.solver (command executable extra manifest)
            (manifestText? world.disk manifest)] } :=
  rfl

section Respond

variable {relation : World → World → Prop} (h : Act.Tolerant relation)
include h

theorem Compiler.keeps_respond {reply : CompilerReply} {executable folder output : String}
    (sources : List String) (haffect : (Act.affect reply.elsewhere).Keeps relation)
    (hplace : ∀ content, reply.output = some content →
      (Act.place ((Path.ofString folder).join (.ofString output)) content).Keeps relation) :
    (respond reply executable folder output sources).Keeps relation := by
  unfold respond
  split
  · exact h.result fun _ => rfl
  · have hleave : (leave reply executable folder output).Keeps relation := by
      unfold leave
      split
      · next content houtput => exact .orElse (hplace content houtput) _
      · exact h.result fun _ => rfl
    have hexit : (exit reply sources).Keeps relation := by
      unfold exit
      split <;> exact h.result fun _ => rfl
    exact .bind h.toLasting haffect fun _ => .bind h.toLasting hleave fun _ => hexit

theorem Solver.keeps_respond {reply : SolverReply} (executable : String)
    (haffect : (Act.affect reply.elsewhere).Keeps relation) :
    (respond reply executable).Keeps relation := by
  unfold respond
  split
  · exact h.result fun _ => rfl
  · exact .bind h.toLasting haffect fun _ => h.result fun _ => rfl

end Respond

theorem Compiler.started_of_respond {reply : CompilerReply} {executable folder output : String}
    {sources : List String} {world after : World} {value : Unit}
    (h : (respond reply executable folder output sources).run world = (.ok value, after)) :
    reply.refusal = none ∧ reply.code = 0 := by
  unfold respond at h
  split at h
  · cases h
  · next hrefusal =>
    obtain ⟨_, _, -, h⟩ := run_bind_eq_ok.1 h
    obtain ⟨_, _, -, h⟩ := run_bind_eq_ok.1 h
    unfold exit at h
    split at h
    · cases h
    · next hcode => exact ⟨hrefusal, Decidable.not_not.1 hcode⟩

theorem Solver.readAnswer_eq_ok {reply : SolverReply} {found : Dependencies}
    (h : readAnswer reply = .ok found) :
    ∃ text, Text.Utf8.decode reply.printed = .ok text ∧ Dependencies.ofText text = .ok found := by
  unfold readAnswer at h
  split at h
  · cases h
  · next text hdecode =>
    refine ⟨text, hdecode, ?_⟩
    cases hfound : Dependencies.ofText text with
    | error failure =>
        rw [hfound] at h
        cases h
    | ok known =>
        rw [hfound] at h
        cases h
        rfl

theorem Solver.answered_of_respond {reply : SolverReply} {executable : String}
    {world after : World} {found : Dependencies}
    (h : (respond reply executable).run world = (.ok found, after)) :
    reply.refusal = none ∧
      ∃ text, Text.Utf8.decode reply.printed = .ok text ∧ Dependencies.ofText text = .ok found := by
  unfold respond at h
  split at h
  · cases h
  · next hrefusal =>
    obtain ⟨_, _, -, h⟩ := run_bind_eq_ok.1 h
    refine ⟨hrefusal, readAnswer_eq_ok ?_⟩
    rw [run_ofFailure] at h
    cases hanswer : readAnswer reply with
    | error failure =>
        rw [hanswer] at h
        cases h
    | ok known =>
        rw [hanswer] at h
        cases h
        rfl

/-- What node does, if it starts. -/
def NodeProcess.respond (reply : NodeReply) (executable : String) : Act Int :=
  match reply.refusal with
  | some refusal => Act.failToStart executable (refusal.error executable)
  | none => do
      Act.affect reply.elsewhere
      Act.note part ("Supervisor exited with " ++ codeText reply.code)
      return exitCode reply.code

/-- The input of node; without one that starts there is nobody to take it. -/
def NodeProcess.input (reply : NodeReply) (worker : String) : Option String :=
  match reply.refusal with
  | some _ => none
  | none => some (worker ++ "\n")

theorem NodeProcess.run_supervise (reply : NodeReply) (executable folder worker : String)
    (world : World) :
    (supervise reply executable folder worker).run world =
      (respond reply executable).run
        { world with
          lines := world.lines ++ [.note part ("Starting " ++
            " ".intercalate [executable, supervisorScript] ++ " in " ++ folder)]
          calls := world.calls ++ [.node [executable, supervisorScript] folder
            (input reply worker)] } := by
  simp only [supervise, run_bind, run_note]
  unfold respond input
  cases reply.refusal <;> rfl

theorem NodeProcess.keeps_respond {relation : World → World → Prop}
    (h : Act.Tolerant relation) {reply : NodeReply} (executable : String)
    (haffect : (Act.affect reply.elsewhere).Keeps relation) :
    (respond reply executable).Keeps relation := by
  unfold respond
  split
  · exact h.result fun _ => rfl
  · exact .bind h.toLasting haffect fun _ => .bind h.toLasting (h.say _) fun _ => h.result fun _ => rfl

theorem NodeProcess.started_of_respond {reply : NodeReply} {executable : String}
    {world after : World} {code : Int}
    (h : (respond reply executable).run world = (.ok code, after)) : reply.refusal = none := by
  unfold respond at h
  split at h
  · cases h
  · next hrefusal => exact hrefusal

/-! ### The calls of a run -/

namespace Act

/-- No tool is asked for. -/
def SameCalls (before after : World) : Prop :=
  after.calls = before.calls

theorem permissive_sameCalls : Permissive SameCalls (fun _ => True) fun _ => True where
  refl _ := rfl
  trans hfirst hsecond := hsecond.trans hfirst
  lines _ _ := rfl
  folders _ _ _ := rfl
  files _ _ _ _ _ _ := rfl

theorem sameCalls_change (operation : Disk → Except Fault Disk) :
    (change operation).Keeps SameCalls := by
  intro world
  rw [run_change]
  split <;> rfl

theorem sameCalls_place (path : Path) (content : Content) : (place path content).Keeps SameCalls := by
  have hfolders (path : Path) : (makeFolders path).Keeps SameCalls :=
    permissive_sameCalls.makeFolders trivial
  cases content with
  | file bytes => exact permissive_sameCalls.placeFile trivial trivial bytes
  | folder => exact hfolders path
  | link target =>
      exact .bind permissive_sameCalls.toLasting (hfolders path.parent) fun _ => sameCalls_change _

theorem calls_bind {α β : Type} {act : Act α} {next : α → Act β} {world : World}
    {calls : List ToolCall} (hact : (act.run world).2.calls = calls)
    (hnext : ∀ value, (next value).Keeps SameCalls) : ((act >>= next).run world).2.calls = calls := by
  rw [run_bind]
  rcases hrun : act.run world with ⟨trouble | value, between⟩
  · rw [hrun] at hact
    exact hact
  · rw [hrun] at hact
    exact (hnext value between).trans hact

end Act

theorem Compiler.calls_compile (reply : Nat → CompilerReply) (executable folder output : String)
    (sources : List String) (world : World) :
    ((compile reply executable folder output sources).run world).2.calls =
      world.calls ++ [.compiler (command executable output sources) folder] := by
  rw [run_compile]
  exact keeps_respond permissive_sameCalls.toTolerant sources (fun _ => rfl) (fun _ _ => sameCalls_place _ _) _

/-- A tool that a run calls. -/
inductive Tool
  | solver
  | testCompiler
  | runnerCompiler
  | reporterCompiler
  | node
deriving DecidableEq, Repr

namespace Tool

/-- All tools, in the order in which they are called. -/
def all : List Tool :=
  [.solver, .testCompiler, .runnerCompiler, .reporterCompiler, .node]

/-- The tool that a stage calls. -/
def ofStage? : Stage → Option Tool
  | .solve => some .solver
  | .compileTests => some .testCompiler
  | .compileRunner => some .runnerCompiler
  | .compileReporter => some .reporterCompiler
  | .supervise => some .node
  | _ => none

theorem filterMap_ofStage?_all : Stage.all.filterMap ofStage? = all :=
  rfl

/-- A tool that is called in a world starts and does what it is asked. -/
def Succeeds (context : RunContext) (world : World) : Tool → Prop
  | .solver =>
      context.tools.solver.refusal = none ∧
        ∃ text found, Text.Utf8.decode context.tools.solver.printed = .ok text ∧
          Dependencies.ofText text = .ok found
  | .node => context.tools.node.refusal = none
  | _ =>
      (context.tools.compiler world.compilerCalls).refusal = none ∧
        (context.tools.compiler world.compilerCalls).code = 0

end Tool

namespace Pipeline

variable (context : RunContext) (options : RunOptions) (layout : Layout)

/-- How a tool is called when a stage is visited. -/
def toolCall (visit : Visit) : Tool → ToolCall
  | .solver =>
      .solver (Solver.command Solver.defaultExecutable Solver.extraPackages layout.manifest.toString)
        (Solver.manifestText? visit.world.disk layout.manifest.toString)
  | .testCompiler =>
      .compiler (Compiler.command options.compiler Compiler.noOutput.toString
        ((sortPaths visit.found.files).map Path.toString)) layout.root.toString
  | .runnerCompiler =>
      .compiler (Compiler.command options.compiler layout.runnerScript.toString ["src/Runner.elm"])
        layout.root.toString
  | .reporterCompiler =>
      .compiler (Compiler.command options.compiler layout.reporterScript.toString
        [(context.installation.assetPath .reporter).toString]) layout.root.toString
  | .node =>
      .node [NodeProcess.defaultExecutable, NodeProcess.supervisorScript] layout.root.toString
        (NodeProcess.input context.tools.node layout.nodeRunner.toString)

/-- The tool that a visit calls. -/
def Visit.tool? (visit : Visit) : Option Tool :=
  Tool.ofStage? visit.stage

/-- The call that a visit makes. -/
def Visit.call? (visit : Visit) : Option ToolCall :=
  visit.tool?.map (toolCall context options layout visit)

/-- A stage makes the call of its tool and no other, whatever becomes of it. -/
theorem calls_perform (visit : Visit) :
    ((perform context options layout visit.found visit.stage).run visit.world).2.calls =
      visit.world.calls ++ (visit.call? context options layout).toList := by
  have h := permissive_sameCalls
  obtain ⟨stage, found, world⟩ := visit
  have hquiet {α : Type} {act : Act α} (hact : act.Keeps SameCalls) :
      (act.run world).2.calls = world.calls ++ [] :=
    (hact world).trans (List.append_nil _).symm
  cases stage with
  | validateOptions => exact hquiet (.map (h.result fun _ => rfl) _)
  | discover => exact hquiet (.map (Discovery.keeps_collect h.toTolerant _ _) _)
  | synthesize => exact hquiet (.map (keeps_synthesize h context trivial trivial trivial trivial) _)
  | findTests => exact hquiet (.map (keeps_findTests h.toTolerant _ _) _)
  | generateRunner => exact hquiet (.map (Generation.keeps_writeRendered h _ _ _ trivial trivial) _)
  | generateNodeRunner => exact hquiet (.map (Generation.keeps_writeRendered h _ _ _ trivial trivial) _)
  | generateSupervisor => exact hquiet (.map (Generation.keeps_writeRendered h _ _ _ trivial trivial) _)
  | solve =>
      rw [perform, run_map, Pipeline.solve, run_bind, run_report]
      apply calls_bind
      · rw [Solver.run_solve]
        exact Solver.keeps_respond h.toTolerant _ (fun _ => rfl) _
      · intro found
        exact .bind h.toLasting (ManifestFile.keeps_write h _ trivial trivial) fun _ => h.result fun _ => rfl
  | compileTests =>
      rw [perform, run_map, Pipeline.compileTests, run_bind, run_report]
      exact Compiler.calls_compile _ _ _ _ _ _
  | compileRunner =>
      rw [perform, run_map, Pipeline.compileRunner, run_bind, run_report]
      apply calls_bind
      · exact Compiler.calls_compile _ _ _ _ _ _
      · exact fun _ => Generation.keeps_patchFile h _ trivial
  | compileReporter =>
      rw [perform, run_map, Pipeline.compileReporter, run_bind, run_report]
      apply calls_bind
      · exact Compiler.calls_compile _ _ _ _ _ _
      · exact fun _ => h.result fun _ => rfl
  | supervise =>
      rw [perform, run_map, Pipeline.supervise, run_bind, run_report]
      dsimp only
      rw [run_bind, run_report]
      apply calls_bind
      · rw [NodeProcess.run_supervise]
        exact NodeProcess.keeps_respond h.toTolerant _ (fun _ => rfl) _
      · intro code
        exact .bind h.toLasting (h.say _) fun _ => h.result fun _ => rfl

variable {context options layout}

/-- The tool of a stage that gives a result has done what it was asked. -/
theorem succeeds_of_perform {visit : Visit} {value : Findings × Option String} {between : World}
    (h : (perform context options layout visit.found visit.stage).run visit.world =
      (.ok value, between)) {tool : Tool} (htool : visit.tool? = some tool) :
    tool.Succeeds context visit.world := by
  obtain ⟨stage, found, world⟩ := visit
  cases stage with
  | solve =>
      cases htool
      obtain ⟨_, h, -⟩ := run_map_eq_ok.1 h
      obtain ⟨_, _, hreport, h⟩ := run_bind_eq_ok.1 h
      cases hreport
      obtain ⟨_, _, hsolve, -⟩ := run_bind_eq_ok.1 h
      rw [Solver.run_solve] at hsolve
      obtain ⟨hrefusal, text, hanswer⟩ := Solver.answered_of_respond hsolve
      exact ⟨hrefusal, text, _, hanswer⟩
  | compileTests =>
      cases htool
      obtain ⟨_, h, -⟩ := run_map_eq_ok.1 h
      obtain ⟨_, _, hreport, h⟩ := run_bind_eq_ok.1 h
      cases hreport
      rw [compile, Compiler.run_compile] at h
      exact Compiler.started_of_respond h
  | compileRunner =>
      cases htool
      obtain ⟨_, h, -⟩ := run_map_eq_ok.1 h
      obtain ⟨_, _, hreport, h⟩ := run_bind_eq_ok.1 h
      cases hreport
      obtain ⟨_, _, hcompile, -⟩ := run_bind_eq_ok.1 h
      rw [compile, Compiler.run_compile] at hcompile
      exact Compiler.started_of_respond hcompile
  | compileReporter =>
      cases htool
      obtain ⟨_, h, -⟩ := run_map_eq_ok.1 h
      obtain ⟨_, _, hreport, h⟩ := run_bind_eq_ok.1 h
      cases hreport
      obtain ⟨_, _, hcompile, -⟩ := run_bind_eq_ok.1 h
      rw [compile, Compiler.run_compile] at hcompile
      exact Compiler.started_of_respond hcompile
  | supervise =>
      cases htool
      obtain ⟨_, h, -⟩ := run_map_eq_ok.1 h
      obtain ⟨_, _, -, h⟩ := run_bind_eq_ok.1 h
      obtain ⟨_, _, -, h⟩ := run_bind_eq_ok.1 h
      obtain ⟨_, _, hsupervise, -⟩ := run_bind_eq_ok.1 h
      rw [NodeProcess.run_supervise] at hsupervise
      exact NodeProcess.started_of_respond hsupervise
  | _ => cases htool

/-- The tools that stages call are called in their order, each at most once. -/
theorem filterMap_tool?_visits_prefix (found : Findings) (world : World) :
    (visits context options layout Stage.all found world).filterMap Visit.tool? <+: Tool.all := by
  have hstages : (visits context options layout Stage.all found world).map Visit.stage <+: Stage.all :=
    map_stage_visits_prefix Stage.all found world
  have hprefix := hstages.filterMap Tool.ofStage?
  rw [List.filterMap_map, Tool.filterMap_ofStage?_all] at hprefix
  exact hprefix

/-- The calls of a run are those of its visits. -/
theorem Course.calls {all : List Stage} {found : Findings} {world after : World}
    {ending : Except Interruption Findings} {outcomes : List Outcome}
    (h : Course context options layout all found world ending after outcomes) :
    after.calls = world.calls ++
      (visits context options layout all found world).filterMap
        (Visit.call? context options layout) := by
  induction h with
  | finished => exact (List.append_nil _).symm
  | @passed stage rest found next world between after detail ending outcomes hrun _ ih =>
      have hcalls := calls_perform context options layout ⟨stage, found, world⟩
      rw [hrun] at hcalls
      rw [visits, hrun, ih, hcalls, List.append_assoc, List.filterMap_cons]
      cases Visit.call? context options layout ⟨stage, found, world⟩ <;> rfl
  | @failed stage rest found world between after trouble cause hrun hafter =>
      have hcalls := calls_perform context options layout ⟨stage, found, world⟩
      rw [hrun] at hcalls
      rw [visits, hrun, hafter, hcalls, List.filterMap_cons]
      cases Visit.call? context options layout ⟨stage, found, world⟩ <;> rfl
  | @left stage rest found world between fault hrun =>
      have hcalls := calls_perform context options layout ⟨stage, found, world⟩
      rw [hrun] at hcalls
      rw [visits, hrun, hcalls, List.filterMap_cons]
      cases Visit.call? context options layout ⟨stage, found, world⟩ <;> rfl

/-- The calls of a run that pays a visit to every stage: one of the solver, three of the compiler and
one of node. -/
theorem exists_filterMap_call? {all : List Visit} (hall : all.map Visit.stage = Stage.all) :
    ∃ manifest files, all.filterMap (Visit.call? context options layout) =
      [ .solver (Solver.command Solver.defaultExecutable Solver.extraPackages layout.manifest.toString)
          manifest
      , .compiler (Compiler.command options.compiler Compiler.noOutput.toString files)
          layout.root.toString
      , .compiler (Compiler.command options.compiler layout.runnerScript.toString ["src/Runner.elm"])
          layout.root.toString
      , .compiler (Compiler.command options.compiler layout.reporterScript.toString
          [(context.installation.assetPath .reporter).toString]) layout.root.toString
      , .node [NodeProcess.defaultExecutable, NodeProcess.supervisorScript] layout.root.toString
          (NodeProcess.input context.tools.node layout.nodeRunner.toString) ] := by
  have hdistinct : ∀ first ∈ all, ∀ second ∈ all, first.stage = second.stage → first = second :=
    List.inj_on_of_nodup_map (hall ▸ Stage.all_nodup)
  have hvisited (stage : Stage) : ∃ visit ∈ all, visit.stage = stage :=
    List.mem_map.1 (hall ▸ Stage.mem_all stage)
  obtain ⟨asked, hasked, hsolve⟩ := hvisited .solve
  obtain ⟨checked, hchecked, hcompile⟩ := hvisited .compileTests
  -- Only these two calls say more than their stage does.
  have hcall : ∀ visit ∈ all, visit.call? context options layout =
      (Tool.ofStage? visit.stage).map
        (toolCall context options layout (if visit.stage = .solve then asked else checked)) := by
    intro visit hvisit
    rw [Visit.call?, Visit.tool?]
    by_cases hfirst : visit.stage = .solve
    · rw [if_pos hfirst, hdistinct visit hvisit asked hasked (hfirst.trans hsolve.symm)]
    · rw [if_neg hfirst]
      by_cases hsecond : visit.stage = .compileTests
      · rw [hdistinct visit hvisit checked hchecked (hsecond.trans hcompile.symm)]
      · cases hstage : visit.stage with
        | solve => exact absurd hstage hfirst
        | compileTests => exact absurd hstage hsecond
        | _ => simp only [Tool.ofStage?, Option.map_none, Option.map_some, toolCall]
  refine ⟨Solver.manifestText? asked.world.disk layout.manifest.toString,
    (sortPaths checked.found.files).map Path.toString, ?_⟩
  have hstages : all.filterMap (Visit.call? context options layout) =
      (all.map Visit.stage).filterMap fun stage => (Tool.ofStage? stage).map
        (toolCall context options layout (if stage = .solve then asked else checked)) := by
    rw [List.filterMap_map]
    exact List.filterMap_congr hcall
  rw [hstages, hall]
  rfl

end Pipeline

end ElmSuite
