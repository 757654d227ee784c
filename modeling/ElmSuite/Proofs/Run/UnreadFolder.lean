import ElmSuite.Proofs.Disk.OtherFolder
import ElmSuite.Proofs.Run.AlikeRuns
import ElmSuite.Proofs.Run.PairedStages

/-!
A run does not read the working directory.  Its project has a canonical root, all paths that it works with
start there or at the root of the disk, and tools are told where to start; so from two folders a run has the
same result and leaves the same world.
-/

namespace ElmSuite

open Act

/-- Two worlds that differ at most in the working directory. -/
structure World.SameButFolder (first second : World) : Prop where
  tree : first.disk.tree = second.disk.tree
  lines : first.lines = second.lines
  calls : first.calls = second.calls

namespace World.SameButFolder

variable {first second : World}

theorem disk (h : first.SameButFolder second) : second.disk = first.disk.seenFrom second.disk.cwd := by
  rw [Disk.seenFrom, h.tree]

theorem compilerCalls (h : first.SameButFolder second) : first.compilerCalls = second.compilerCalls := by
  rw [World.compilerCalls, World.compilerCalls, h.calls]

theorem say (h : first.SameButFolder second) (line : Line) :
    World.SameButFolder { first with lines := first.lines ++ [line] }
      { second with lines := second.lines ++ [line] } :=
  ⟨h.tree, congrArg (· ++ [line]) h.lines, h.calls⟩

/-- A call is recorded in both worlds, and what is said about it. -/
theorem call (h : first.SameButFolder second) (line : Line) (call : ToolCall) :
    World.SameButFolder { first with lines := first.lines ++ [line], calls := first.calls ++ [call] }
      { second with lines := second.lines ++ [line], calls := second.calls ++ [call] } :=
  ⟨h.tree, congrArg (· ++ [line]) h.lines, congrArg (· ++ [call]) h.calls⟩

end World.SameButFolder

/-- What a tool does to the disk does not depend on where the program was started. -/
structure Tools.Placeless (tools : Tools) : Prop where
  compiler : ∀ count disk cwd, (tools.compiler count).elsewhere (disk.seenFrom cwd) =
    ((tools.compiler count).elsewhere disk).seenFrom cwd
  solver : ∀ disk cwd, tools.solver.elsewhere (disk.seenFrom cwd) = (tools.solver.elsewhere disk).seenFrom cwd
  node : ∀ disk cwd, tools.node.elsewhere (disk.seenFrom cwd) = (tools.node.elsewhere disk).seenFrom cwd

namespace Act

variable {α β : Type}

/-- Wherever the program was started, an action has the same result and does the same. -/
abbrev IgnoresFolder (act : Act α) : Prop :=
  act.Alike World.SameButFolder World.SameButFolder World.SameButFolder

theorem ignoresFolder_result (result : Except Trouble α) : (ofTrouble result).IgnoresFolder :=
  .result (fun _ _ h => h) result

theorem ignoresFolder_pure (value : α) : (pure value : Act α).IgnoresFolder :=
  ignoresFolder_result (.ok value)

theorem ignoresFolder_look {question : Disk → Except Fault α}
    (h : ∀ disk cwd, question (Disk.seenFrom disk cwd) = question disk) : (look question).IgnoresFolder :=
  .look (fun _ _ h => h) fun first second hsame => by rw [hsame.disk, h]

theorem ignoresFolder_say (line : Line) : (say line).IgnoresFolder :=
  .say (fun _ _ h => h) fun _ _ h => h.say line

theorem ignoresFolder_disk {next : Disk → Act β} (hsame : ∀ disk cwd, next (disk.seenFrom cwd) = next disk)
    (h : ∀ disk, (next disk).IgnoresFolder) : (Act.disk >>= next).IgnoresFolder :=
  .disk fun first second hworlds => ⟨by rw [hworlds.disk, hsame], h first.disk⟩

theorem ignoresFolder_affect {effect : Disk → Disk}
    (h : ∀ disk cwd, effect (disk.seenFrom cwd) = (effect disk).seenFrom cwd) :
    (affect effect).IgnoresFolder := by
  intro first second hworlds
  have hafter : World.SameButFolder { first with disk := effect first.disk }
      { second with disk := effect second.disk } := by
    refine ⟨?_, hworlds.lines, hworlds.calls⟩
    rw [hworlds.disk, h]
    rfl
  exact ⟨.ok (), _, _, rfl, rfl, hafter, fun _ _ => hafter⟩

/-- A change that is the same from everywhere. -/
theorem ignoresFolder_change {operation : Disk → Except Fault Disk}
    (h : ∀ disk cwd, operation (disk.seenFrom cwd) = (operation disk).map (·.seenFrom cwd)) :
    (change operation).IgnoresFolder := by
  intro first second hworlds
  have hsecond : operation second.disk = (operation first.disk).map (·.seenFrom second.disk.cwd) := by
    rw [← h, ← hworlds.disk]
  rw [run_change, run_change, hsecond]
  cases operation first.disk with
  | error fault => exact ⟨_, _, _, rfl, rfl, hworlds, fun _ heq => by cases heq⟩
  | ok after =>
      have hafter : World.SameButFolder { first with disk := after }
          { second with disk := after.seenFrom second.disk.cwd } := ⟨rfl, hworlds.lines, hworlds.calls⟩
      exact ⟨_, _, _, rfl, rfl, hafter, fun _ _ => hafter⟩

section Paths

variable {path : Path} (hpath : path.anchor ≠ .here)
include hpath

theorem ignoresFolder_makeFolders : (makeFolders path).IgnoresFolder := by
  intro first second hworlds
  have hsecond : Disk.makeFolders path second.disk =
      ((Disk.makeFolders path first.disk).1, (Disk.makeFolders path first.disk).2.seenFrom second.disk.cwd) := by
    rw [← Disk.makeFolders_seenFrom hpath, ← hworlds.disk]
  have hafter : World.SameButFolder { first with disk := (Disk.makeFolders path first.disk).2 }
      { second with disk := (Disk.makeFolders path second.disk).2 } := by
    rw [hsecond]
    exact ⟨rfl, hworlds.lines, hworlds.calls⟩
  rw [run_makeFolders, run_makeFolders]
  refine ⟨_, _, _, rfl, ?_, hafter, fun _ _ => hafter⟩
  rw [hsecond]

theorem ignoresFolder_writeText (text : List Char) : (writeText path text).IgnoresFolder :=
  ignoresFolder_change fun _ _ => Disk.writeBytes_seenFrom (Path.isAbsolute_toString hpath) _

theorem ignoresFolder_readText : (readText path).IgnoresFolder :=
  ignoresFolder_look fun _ _ => Disk.readText_seenFrom (Path.isAbsolute_toString hpath)

theorem ignoresFolder_place (content : Content) : (place path content).IgnoresFolder := by
  have habsolute := Path.isAbsolute_toString hpath
  have habove : path.parent.anchor ≠ .here := hpath
  cases content with
  | file bytes =>
      exact .bind (ignoresFolder_makeFolders habove) fun _ =>
        ignoresFolder_change fun _ _ => Disk.writeBytes_seenFrom habsolute bytes
  | folder => exact ignoresFolder_makeFolders hpath
  | link target =>
      exact .bind (ignoresFolder_makeFolders habove) fun _ =>
        ignoresFolder_change fun _ _ => Disk.makeLink_seenFrom habsolute target

end Paths

end Act

theorem Path.anchor_join_ne {p : Path} (h : p.anchor ≠ .here) (q : Path) : (p.join q).anchor ≠ .here := by
  unfold join
  split
  · exact h
  · assumption

/-! ### Test files -/

namespace Discovery

theorem ignoresFolder_fileOfMatch {matched : String} (h : Disk.isAbsolute matched = true) :
    (fileOfMatch matched).IgnoresFolder := by
  have hanchor := Disk.anchor_ofString_ne h
  refine ignoresFolder_disk (fun disk cwd => by rw [Disk.locate_seenFrom hanchor]) fun disk => ?_
  split
  · next path hlocate =>
    have habsolute := Path.isAbsolute_toString (Disk.anchor_of_locate hlocate)
    exact ignoresFolder_disk (fun _ _ => by rw [Disk.isFile_seenFrom habsolute]) fun _ => by
      split <;> exact ignoresFolder_pure _
  · exact .bind (ignoresFolder_say _) fun _ => ignoresFolder_pure _
  · exact ignoresFolder_result (.error _)

theorem ignoresFolder_filesOfPattern {pattern : String} (h : Disk.isAbsolute pattern = true) :
    (filesOfPattern pattern).IgnoresFolder := by
  refine Alike.bind_run (ignoresFolder_look fun _ _ => Glob.expand_seenFrom h) ?_
  intro matched first _ _ _ hmatched
  have hexpand := (run_look_eq_ok.1 hmatched).1
  refine .bind (.mapM (fun _ _ h => h) fun text htext => ?_) fun _ => ignoresFolder_pure _
  exact ignoresFolder_fileOfMatch (Glob.isAbsolute_of_mem_expand h hexpand text htext)

theorem ignoresFolder_collect {root : String} (h : Disk.isAbsolute root = true) :
    (collect [] root).IgnoresFolder := by
  have hpatterns : ∀ pattern ∈ defaultPatterns root, Disk.isAbsolute pattern = true := by
    obtain ⟨chars, hchars⟩ := List.head?_eq_some_iff.1 (of_decide_eq_true h)
    simp [defaultPatterns, Disk.isAbsolute, String.toList_append, hchars]
  have hdiscover : (discover (defaultPatterns root)).IgnoresFolder :=
    .bind (.mapM (fun _ _ h => h) fun pattern hpattern =>
      ignoresFolder_filesOfPattern (hpatterns pattern hpattern)) fun _ => ignoresFolder_pure _
  refine .bind hdiscover fun files => ?_
  dsimp only
  split
  · exact ignoresFolder_result (.error _)
  · exact ignoresFolder_pure files

/-- The test files that are found start at the root. -/
theorem anchor_of_collect {targets : List String} {root : String} {files : List Path} {world after : World}
    (h : (collect targets root).run world = (.ok files, after)) : ∀ file ∈ files, file.anchor ≠ .here := by
  obtain ⟨-, between, hcandidates⟩ := candidates_of_collect h
  intro file hfile
  obtain ⟨text, hlocate⟩ := (isCanonical_of_candidates hcandidates file hfile).located
  exact Disk.anchor_of_locate hlocate

theorem readTestFile_seenFrom {disk : Disk} {cwd : List String} {file : Path} (h : file.anchor ≠ .here) :
    readTestFile (disk.seenFrom cwd) file = readTestFile disk file := by
  rw [readTestFile, readTestFile, Disk.readText_seenFrom (Path.isAbsolute_toString h)]

theorem ignoresFolder_findModules (roots : List Path) {files : List Path}
    (h : ∀ file ∈ files, file.anchor ≠ .here) : (findModules roots files).IgnoresFolder :=
  ignoresFolder_disk
    (fun _ _ => by rw [findTests_congr fun file hfile => readTestFile_seenFrom (h file hfile)])
    fun _ => ignoresFolder_result _

end Discovery

/-! ### The manifest -/

theorem ManifestFile.ignoresFolder_readText {path : Path} (h : path.anchor ≠ .here) :
    (readText path).IgnoresFolder :=
  .orElse (Act.ignoresFolder_readText h) _

theorem ManifestFile.ignoresFolder_write (app : Application) {path : Path} (h : path.anchor ≠ .here) :
    (write app path).IgnoresFolder := by
  have habove : path.parent.anchor ≠ .here := h
  exact .bind (ignoresFolder_makeFolders habove) fun _ => .bind (ignoresFolder_result _) fun text =>
    .bind (ignoresFolder_writeText h text) fun _ => .bind (ignoresFolder_say _) fun _ => ignoresFolder_pure path

namespace Synthesis

variable {root generated : Path}

theorem ignoresFolder_sourceDirectory (h : root.anchor ≠ .here) (directory : Codes) :
    (sourceDirectory root directory).IgnoresFolder := by
  refine Alike.bind_run (ignoresFolder_result _) fun asked _ _ _ _ hasked => ?_
  have hanchor : asked.anchor ≠ .here := by
    have hpath := (run_ofFault_eq_ok.1 hasked).1
    unfold pathOf at hpath
    split at hpath <;> cases hpath
    exact Path.anchor_join_ne h _
  refine Alike.bind_run (.orElse (ignoresFolder_look fun _ _ => Disk.locate_seenFrom hanchor) _)
    fun path world _ _ _ hpath => ?_
  have hfound : path.anchor ≠ .here := by
    rw [run_orElse] at hpath
    split at hpath
    · next hlook =>
      cases hpath
      exact Disk.anchor_of_locate (run_look_eq_ok.1 hlook).1
    · cases hpath
    · cases hpath
  refine ignoresFolder_disk (fun _ _ => by rw [Disk.isFolder_seenFrom (Path.isAbsolute_toString hfound)])
    fun _ => ?_
  split
  · exact ignoresFolder_pure path
  · exact ignoresFolder_result (.error _)

theorem ignoresFolder_sourceDirectories (directories : List Codes) (h : root.anchor ≠ .here) :
    (sourceDirectories directories root).IgnoresFolder :=
  .bind (.mapM (fun _ _ h => h) fun directory _ => ignoresFolder_sourceDirectory h directory) fun _ =>
    ignoresFolder_pure _

/-- Paths from the root are seen from each other the same everywhere. -/
theorem relativeTo_seenFrom {disk : Disk} {cwd : List String} {folder : Path} {directories : List Path}
    (hfolder : folder.anchor ≠ .here) (h : ∀ directory ∈ directories, directory.anchor ≠ .here) :
    relativeTo (disk.seenFrom cwd) folder directories = relativeTo disk folder directories := by
  refine List.map_congr_left fun directory hdirectory => ?_
  simp only [Path.namesFrom, if_neg hfolder, if_neg (h directory hdirectory)]

theorem ignoresFolder_ofText (text : List Char) (h : root.anchor ≠ .here) (generated helper : Path) :
    (ofText text root generated helper).IgnoresFolder := by
  have hlocate {path : Path} (hpath : path.anchor ≠ .here) : (Act.locateLeniently path).IgnoresFolder :=
    ignoresFolder_look fun _ _ => Disk.locateLeniently_seenFrom hpath
  refine Alike.bind_run (hlocate h) fun root _ _ _ _ hroot => ?_
  have hroot : root.anchor ≠ .here := Pipeline.anchor_of_locateLeniently (run_look_eq_ok.1 hroot).1
  refine Alike.bind_run (hlocate (Path.anchor_join_ne hroot _)) fun generated _ _ _ _ hgenerated => ?_
  have hgenerated : generated.anchor ≠ .here :=
    Pipeline.anchor_of_locateLeniently (run_look_eq_ok.1 hgenerated).1
  refine Alike.bind (ignoresFolder_result _) fun manifest => ?_
  refine Alike.bind_run (ignoresFolder_sourceDirectories _ hroot) fun found _ _ _ _ hfound => ?_
  obtain ⟨located, hlocated, rfl⟩ := sourceDirectories_eq_ok hfound
  have hanchors : ∀ directory ∈ located.eraseDups, directory.anchor ≠ .here := by
    intro directory hdirectory
    obtain ⟨_, -, hlocate, -⟩ := exists_mem_left hlocated directory (List.mem_eraseDups.1 hdirectory)
    exact Disk.anchor_of_locate hlocate
  exact ignoresFolder_disk (fun _ _ => by rw [relativeTo_seenFrom hgenerated hanchors]) fun _ =>
    ignoresFolder_pure _

end Synthesis

/-! ### Generated files -/

namespace Generation

theorem ignoresFolder_writeRendered (template : List Char) (name : String)
    (values : OrderedMap String (List Char)) {output : Path} (h : output.anchor ≠ .here) :
    (writeRendered template name values output).IgnoresFolder := by
  have habove : output.parent.anchor ≠ .here := h
  exact .bind (ignoresFolder_result _) fun text => .bind (ignoresFolder_makeFolders habove) fun _ =>
    .bind (ignoresFolder_writeText h text) fun _ => .bind (ignoresFolder_say _) fun _ => ignoresFolder_pure output

theorem ignoresFolder_patchFile (tag : Script.IdentityTag) {path : Path} (h : path.anchor ≠ .here) :
    (patchFile tag path).IgnoresFolder :=
  .bind (ignoresFolder_readText h) fun _ => .bind (ignoresFolder_result _) fun _ =>
    .bind (ignoresFolder_say _) fun _ => .bind (ignoresFolder_result _) fun _ =>
      .bind (ignoresFolder_writeText h _) fun _ => ignoresFolder_pure path

end Generation

/-! ### Tools -/

section Tools

variable {tools : Tools} (htools : tools.Placeless)
include htools

theorem Compiler.ignoresFolder_compile (executable : String) {folder : String}
    (hfolder : Disk.isAbsolute folder = true) (output : String) (sources : List String) :
    (compile tools.compiler executable folder output sources).IgnoresFolder := by
  have hrespond (count : Nat) :
      (respond (tools.compiler count) executable folder output sources).IgnoresFolder := by
    unfold respond
    split
    · exact ignoresFolder_result (.error _)
    · have hleave : (leave (tools.compiler count) executable folder output).IgnoresFolder := by
        unfold leave
        split
        · exact .orElse (ignoresFolder_place (Path.anchor_join_ne (Disk.anchor_ofString_ne hfolder) _) _) _
        · exact ignoresFolder_pure ()
      have hexit : (exit (tools.compiler count) sources).IgnoresFolder := by
        unfold exit
        split
        · exact ignoresFolder_result (.error _)
        · exact ignoresFolder_pure ()
      exact .bind (ignoresFolder_affect (htools.compiler count)) fun _ => .bind hleave fun _ => hexit
  intro first second h
  rw [run_compile, run_compile, ← h.compilerCalls]
  exact hrespond _ _ _ (h.call _ _)

theorem Solver.ignoresFolder_solve (executable : String) (extra : List String) {manifest : String}
    (hmanifest : Disk.isAbsolute manifest = true) :
    (solve tools.solver executable extra manifest).IgnoresFolder := by
  have hrespond : (respond tools.solver executable).IgnoresFolder := by
    unfold respond
    split
    · exact ignoresFolder_result (.error _)
    · exact .bind (ignoresFolder_affect htools.solver) fun _ => ignoresFolder_result _
  intro first second h
  have htext : manifestText? second.disk manifest = manifestText? first.disk manifest := by
    rw [h.disk, manifestText?, manifestText?, Disk.readText_seenFrom hmanifest]
  rw [run_solve, run_solve, htext]
  exact hrespond _ _ (h.call _ _)

theorem NodeProcess.ignoresFolder_supervise (executable folder worker : String) :
    (supervise tools.node executable folder worker).IgnoresFolder := by
  have hrespond : (respond tools.node executable).IgnoresFolder := by
    unfold respond
    split
    · exact ignoresFolder_result (.error _)
    · exact .bind (ignoresFolder_affect htools.node) fun _ => .bind (ignoresFolder_say _) fun _ =>
        ignoresFolder_pure _
  intro first second h
  rw [run_supervise, run_supervise]
  exact hrespond _ _ (h.call _ _)

end Tools

/-! ### Stages -/

namespace Pipeline

variable {context : RunContext} {options : RunOptions} {layout : Layout} {found : Findings}

section Stages

variable (htools : context.tools.Placeless) (htargets : options.files = [])
  (hroot : layout.projectRoot.anchor ≠ .here)
include htools htargets hroot

/-- No stage depends on where the program was started. -/
theorem ignoresFolder_perform (hfiles : ∀ file ∈ found.files, file.anchor ≠ .here) (stage : Stage) :
    (perform context options layout found stage).IgnoresFolder := by
  have hgenerated : layout.root.anchor ≠ .here :=
    Path.anchor_join_ne (p := layout.projectRoot.child "elm-stuff") hroot _
  have hmanifest : layout.manifest.anchor ≠ .here := hgenerated
  have hscript (name : String) : (layout.scripts.child name).anchor ≠ .here := hgenerated
  have hcompile (output : Path) (sources : List String) :
      (compile context options layout output sources).IgnoresFolder :=
    Compiler.ignoresFolder_compile htools _ (Path.isAbsolute_toString hgenerated) _ _
  cases stage with
  | validateOptions => exact .map (ignoresFolder_result _) _
  | discover =>
      rw [perform, htargets]
      exact .map (Discovery.ignoresFolder_collect (Path.isAbsolute_toString hroot)) _
  | synthesize =>
      have hhost : (layout.projectRoot.child ManifestFile.fileName).anchor ≠ .here := hroot
      have hsources : layout.sources.anchor ≠ .here := hgenerated
      have hscripts : layout.scripts.anchor ≠ .here := hgenerated
      refine .map (.bind (ManifestFile.ignoresFolder_readText hhost) fun text =>
        .bind (Synthesis.ignoresFolder_ofText text hroot _ _) fun synthesis => ?_) _
      exact .bind (.bind (ignoresFolder_makeFolders hsources) fun _ => ignoresFolder_makeFolders hscripts)
        fun _ => .bind (ManifestFile.ignoresFolder_write _ hmanifest) fun _ => ignoresFolder_pure _
  | solve =>
      exact .map (.bind (ignoresFolder_say _) fun _ =>
        .bind (Solver.ignoresFolder_solve htools _ _ (Path.isAbsolute_toString hmanifest)) fun _ =>
          .bind (ManifestFile.ignoresFolder_write _ hmanifest) fun _ => ignoresFolder_pure _) _
  | compileTests => exact .map (.bind (ignoresFolder_say _) fun _ => hcompile _ _) _
  | findTests =>
      exact .map (.bind (ignoresFolder_say _) fun _ => Discovery.ignoresFolder_findModules _ hfiles) _
  | generateRunner =>
      have hrunner : layout.runnerSource.anchor ≠ .here := hgenerated
      exact .map (Generation.ignoresFolder_writeRendered _ _ _ hrunner) _
  | compileRunner =>
      exact .map (.bind (ignoresFolder_say _) fun _ => .bind (hcompile _ _) fun _ =>
        Generation.ignoresFolder_patchFile _ (hscript _)) _
  | generateNodeRunner => exact .map (Generation.ignoresFolder_writeRendered _ _ _ (hscript _)) _
  | compileReporter =>
      exact .map (.bind (ignoresFolder_say _) fun _ => .bind (hcompile _ _) fun _ => ignoresFolder_pure _) _
  | generateSupervisor => exact .map (Generation.ignoresFolder_writeRendered _ _ _ (hscript _)) _
  | supervise =>
      exact .map (.bind (ignoresFolder_say _) fun _ => .bind (ignoresFolder_say _) fun _ =>
        .bind (NodeProcess.ignoresFolder_supervise htools _ _ _) fun _ => .bind (ignoresFolder_say _) fun _ =>
          ignoresFolder_pure _) _

theorem prepares_anchored : Prepares context options layout World.SameButFolder fun _ found first second =>
    first.SameButFolder second ∧ ∀ file ∈ found.files, file.anchor ≠ .here where
  say h line := h.say line
  related h := h.1
  stage h := by
    rename_i stage rest found first second
    obtain ⟨result, first', second', hfirst, hsecond, hkept, -⟩ :=
      ignoresFolder_perform htools htargets hroot h.2 stage first second h.1
    refine ⟨result, first', second', hfirst, hsecond, hkept, ?_⟩
    rintro next detail rfl
    refine ⟨hkept, ?_⟩
    by_cases hstage : stage = .discover
    · subst hstage
      exact Discovery.anchor_of_collect (files_of_discover hfirst)
    · rw [files_of_perform hstage hfirst]
      exact h.2

end Stages

/-- A run of a project, wherever the program was started. -/
theorem ignoresFolder_run (htools : context.tools.Placeless) (htargets : options.files = []) {root : Path}
    (hroot : root.anchor ≠ .here) : (run context options root).IgnoresFolder := by
  refine Alike.bind_run (ignoresFolder_look fun _ _ => Disk.locateLeniently_seenFrom hroot)
    fun canonical _ _ _ _ hcanonical => ?_
  have hanchor : canonical.anchor ≠ .here := anchor_of_locateLeniently (run_look_eq_ok.1 hcanonical).1
  intro first second h
  have hready : first.SameButFolder second ∧ ∀ file ∈ ({} : Findings).files, file.anchor ≠ .here :=
    ⟨h, fun _ hfile => absurd hfile List.not_mem_nil⟩
  obtain ⟨result, first', second', hfirst, hsecond, hkept⟩ :=
    (prepares_anchored htools htargets hanchor).runAt hready
  exact ⟨result, first', second', hfirst, hsecond, hkept, fun _ _ => hkept⟩

end Pipeline

end ElmSuite
