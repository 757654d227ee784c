import ElmSuite.Proofs.Run.ToolCalls
import ElmSuite.Proofs.World.Alike

/-!
What a run says is not read again.  In worlds that differ at most in their lines, an action has the same
result and leaves such worlds, and so does every stage that only works with what was found before it.
-/

namespace ElmSuite

open Act

/-- Two worlds that differ at most in the lines that were said in them. -/
structure World.SameButLines (first second : World) : Prop where
  disk : first.disk = second.disk
  calls : first.calls = second.calls

namespace World.SameButLines

variable {first second third : World}

theorem refl (world : World) : world.SameButLines world :=
  ⟨rfl, rfl⟩

theorem symm (h : first.SameButLines second) : second.SameButLines first :=
  ⟨h.disk.symm, h.calls.symm⟩

theorem trans (h : first.SameButLines second) (hnext : second.SameButLines third) : first.SameButLines third :=
  ⟨h.disk.trans hnext.disk, h.calls.trans hnext.calls⟩

theorem compilerCalls (h : first.SameButLines second) : first.compilerCalls = second.compilerCalls := by
  rw [World.compilerCalls, World.compilerCalls, h.calls]

/-- A call is recorded in both worlds, whatever is said about it. -/
theorem call (h : first.SameButLines second) (call : ToolCall) (lines lines' : List Line) :
    World.SameButLines { first with lines, calls := first.calls ++ [call] }
      { second with lines := lines', calls := second.calls ++ [call] } :=
  ⟨h.disk, congrArg (· ++ [call]) h.calls⟩

end World.SameButLines

namespace Act

variable {α β : Type}

/-- Whatever was said before, an action has the same result and does the same, except for lines. -/
abbrev IgnoresLines (act : Act α) : Prop :=
  act.Alike World.SameButLines World.SameButLines World.SameButLines

theorem ignoresLines_result (result : Except Trouble α) : (ofTrouble result).IgnoresLines :=
  .result (fun _ _ h => h) result

theorem ignoresLines_pure (value : α) : (pure value : Act α).IgnoresLines :=
  ignoresLines_result (.ok value)

theorem ignoresLines_look (question : Disk → Except Fault α) : (look question).IgnoresLines :=
  .look (fun _ _ h => h) fun _ _ h => congrArg question h.disk

theorem ignoresLines_say (line : Line) : (say line).IgnoresLines :=
  .say (fun _ _ h => h) fun _ _ h => ⟨h.disk, h.calls⟩

theorem ignoresLines_disk {next : Disk → Act β} (h : ∀ disk, (next disk).IgnoresLines) :
    (Act.disk >>= next).IgnoresLines :=
  .disk fun first _ hsame => ⟨congrArg next hsame.disk, h first.disk⟩

theorem ignoresLines_affect (effect : Disk → Disk) : (affect effect).IgnoresLines := by
  intro first second h
  have hafter : World.SameButLines { first with disk := effect first.disk }
      { second with disk := effect second.disk } := ⟨congrArg effect h.disk, h.calls⟩
  exact ⟨.ok (), _, _, rfl, rfl, hafter, fun _ _ => hafter⟩

theorem ignoresLines_change (operation : Disk → Except Fault Disk) : (change operation).IgnoresLines :=
  .bind (ignoresLines_look operation) fun disk => ignoresLines_affect fun _ => disk

theorem ignoresLines_makeFolders (path : Path) : (makeFolders path).IgnoresLines :=
  ignoresLines_disk fun disk => .bind (ignoresLines_affect fun _ => (Disk.makeFolders path disk).2) fun _ =>
    ignoresLines_result _

theorem ignoresLines_place (path : Path) (content : Content) : (place path content).IgnoresLines := by
  cases content with
  | file bytes => exact .bind (ignoresLines_makeFolders _) fun _ => ignoresLines_change _
  | folder => exact ignoresLines_makeFolders path
  | link target => exact .bind (ignoresLines_makeFolders _) fun _ => ignoresLines_change _

end Act

/-! ### Files of the generated project -/

theorem ManifestFile.ignoresLines_write (app : Application) (path : Path) : (write app path).IgnoresLines :=
  .bind (ignoresLines_makeFolders _) fun _ => .bind (ignoresLines_result _) fun _ =>
    .bind (ignoresLines_change _) fun _ => .bind (ignoresLines_say _) fun _ => ignoresLines_pure path

theorem Synthesis.ignoresLines_sourceDirectory (root : Path) (directory : Codes) :
    (sourceDirectory root directory).IgnoresLines := by
  refine Alike.bind (ignoresLines_result _) fun asked => ?_
  refine Alike.bind (.orElse (ignoresLines_look _) _) fun path => ignoresLines_disk fun disk => ?_
  split
  · exact ignoresLines_pure path
  · exact ignoresLines_result (.error _)

theorem Synthesis.ignoresLines_ofText (text : List Char) (root generated helper : Path) :
    (ofText text root generated helper).IgnoresLines := by
  refine Alike.bind (ignoresLines_look _) fun root => ?_
  refine Alike.bind (ignoresLines_look _) fun generated => ?_
  refine Alike.bind (ignoresLines_result _) fun manifest => ?_
  refine Alike.bind (.bind (.mapM (fun _ _ h => h) fun directory _ =>
    ignoresLines_sourceDirectory root directory) fun _ => ignoresLines_pure _) fun directories => ?_
  exact ignoresLines_disk fun disk => ignoresLines_pure _

namespace Generation

theorem ignoresLines_writeRendered (template : List Char) (name : String)
    (values : OrderedMap String (List Char)) (output : Path) :
    (writeRendered template name values output).IgnoresLines :=
  .bind (ignoresLines_result _) fun _ => .bind (ignoresLines_makeFolders _) fun _ =>
    .bind (ignoresLines_change _) fun _ => .bind (ignoresLines_say _) fun _ => ignoresLines_pure output

theorem ignoresLines_patchFile (tag : Script.IdentityTag) (path : Path) : (patchFile tag path).IgnoresLines :=
  .bind (ignoresLines_look _) fun _ => .bind (ignoresLines_result _) fun _ => .bind (ignoresLines_say _) fun _ =>
    .bind (ignoresLines_result _) fun _ => .bind (ignoresLines_change _) fun _ => ignoresLines_pure path

end Generation

/-! ### Tools -/

theorem Compiler.ignoresLines_respond (reply : CompilerReply) (executable folder output : String)
    (sources : List String) : (respond reply executable folder output sources).IgnoresLines := by
  unfold respond
  split
  · exact ignoresLines_result (.error _)
  · have hleave : (leave reply executable folder output).IgnoresLines := by
      unfold leave
      split
      · exact .orElse (ignoresLines_place _ _) _
      · exact ignoresLines_pure ()
    have hexit : (exit reply sources).IgnoresLines := by
      unfold exit
      split
      · exact ignoresLines_result (.error _)
      · exact ignoresLines_pure ()
    exact .bind (ignoresLines_affect _) fun _ => .bind hleave fun _ => hexit

theorem Compiler.ignoresLines_compile (reply : Nat → CompilerReply) (executable folder output : String)
    (sources : List String) : (compile reply executable folder output sources).IgnoresLines := by
  intro first second h
  rw [run_compile, run_compile, ← h.compilerCalls]
  exact ignoresLines_respond _ _ _ _ _ _ _ (h.call _ _ _)

theorem Solver.ignoresLines_solve (reply : SolverReply) (executable : String) (extra : List String)
    (manifest : String) : (solve reply executable extra manifest).IgnoresLines := by
  intro first second h
  have hrespond : (respond reply executable).IgnoresLines := by
    unfold respond
    split
    · exact ignoresLines_result (.error _)
    · exact .bind (ignoresLines_affect _) fun _ => ignoresLines_result _
  have hmanifest : manifestText? second.disk manifest = manifestText? first.disk manifest := by
    rw [h.disk]
  rw [run_solve, run_solve, hmanifest]
  exact hrespond _ _ (h.call _ _ _)

theorem NodeProcess.ignoresLines_supervise (reply : NodeReply) (executable folder worker : String) :
    (supervise reply executable folder worker).IgnoresLines := by
  intro first second h
  have hrespond : (respond reply executable).IgnoresLines := by
    unfold respond
    split
    · exact ignoresLines_result (.error _)
    · exact .bind (ignoresLines_affect _) fun _ => .bind (ignoresLines_say _) fun _ => ignoresLines_pure _
  rw [run_supervise, run_supervise]
  exact hrespond _ _ (h.call _ _ _)

/-! ### Stages -/

namespace Pipeline

variable (context : RunContext) (options : RunOptions) (layout : Layout)

theorem ignoresLines_synthesize : (synthesize context layout).IgnoresLines :=
  .bind (.orElse (ignoresLines_look _) _) fun _ => .bind (Synthesis.ignoresLines_ofText _ _ _ _) fun _ =>
    .bind (.bind (ignoresLines_makeFolders _) fun _ => ignoresLines_makeFolders _) fun _ =>
      .bind (ManifestFile.ignoresLines_write _ _) fun _ => ignoresLines_pure _

/-- No stage after the discovery depends on what was said. -/
theorem ignoresLines_perform {stage : Stage} (hstage : stage ≠ .discover) (found : Findings) :
    (perform context options layout found stage).IgnoresLines := by
  have hcompile (output : Path) (sources : List String) :
      (compile context options layout output sources).IgnoresLines :=
    Compiler.ignoresLines_compile _ _ _ _ _
  have htext (asset : Asset) (output : Path) (values : OrderedMap String (List Char)) :
      (Generation.fromAsset asset output values).IgnoresLines :=
    Generation.ignoresLines_writeRendered _ _ _ _
  cases stage with
  | validateOptions => exact .map (ignoresLines_result _) _
  | discover => exact absurd rfl hstage
  | synthesize => exact .map (ignoresLines_synthesize context layout) _
  | solve =>
      exact .map (.bind (ignoresLines_say _) fun _ => .bind (Solver.ignoresLines_solve _ _ _ _) fun _ =>
        .bind (ManifestFile.ignoresLines_write _ _) fun _ => ignoresLines_pure _) _
  | compileTests => exact .map (.bind (ignoresLines_say _) fun _ => hcompile _ _) _
  | findTests =>
      exact .map (.bind (ignoresLines_say _) fun _ => ignoresLines_disk fun _ => ignoresLines_result _) _
  | generateRunner => exact .map (htext _ _ _) _
  | compileRunner =>
      exact .map (.bind (ignoresLines_say _) fun _ => .bind (hcompile _ _) fun _ =>
        Generation.ignoresLines_patchFile _ _) _
  | generateNodeRunner => exact .map (htext _ _ _) _
  | compileReporter =>
      exact .map (.bind (ignoresLines_say _) fun _ => .bind (hcompile _ _) fun _ => ignoresLines_pure _) _
  | generateSupervisor => exact .map (htext _ _ _) _
  | supervise =>
      exact .map (.bind (ignoresLines_say _) fun _ => .bind (ignoresLines_say _) fun _ =>
        .bind (NodeProcess.ignoresLines_supervise _ _ _ _) fun _ => .bind (ignoresLines_say _) fun _ =>
          ignoresLines_pure _) _

end Pipeline

end ElmSuite
