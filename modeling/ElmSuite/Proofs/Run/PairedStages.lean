import ElmSuite.Proofs.Run.PairedWorlds
import ElmSuite.Proofs.Run.SourceDirectories
import ElmSuite.Proofs.Suite.SameSearch

/-!
The stages of a run with and without leftovers.  What a stage reads has been written earlier in the
same run or is no part of the generated project, and a stage asks the same of its tools in both runs.
-/

namespace ElmSuite

open Act

/-- Tools that write nothing but a regular file at the output of a script, and do so whenever they exit
with zero.  The first of their compilations only checks its sources. -/
structure Tools.Steady (tools : Tools) (first : Nat) : Prop extends Quiet tools where
  checks : (tools.compiler first).output = none
  scripts : ∀ n, first < n → (tools.compiler n).refusal = none → (tools.compiler n).code = 0 →
    (tools.compiler n).output ≠ none

namespace Layout

variable {folder : List String}

theorem root_ofLocation : (Layout.mk (.ofLocation folder) defaultElmVersion).root =
    .ofLocation (folder ++ ["elm-stuff", "tests-0.19.1"]) :=
  root_eq _

theorem manifest_ofLocation : (Layout.mk (.ofLocation folder) defaultElmVersion).manifest =
    .ofLocation (folder ++ ["elm-stuff", "tests-0.19.1"] ++ ["elm.json"]) := by
  rw [manifest, root_ofLocation]
  rfl

theorem runnerSource_ofLocation : (Layout.mk (.ofLocation folder) defaultElmVersion).runnerSource =
    .ofLocation (folder ++ ["elm-stuff", "tests-0.19.1", "src"] ++ ["Runner.elm"]) := by
  rw [runnerSource, sources_eq]
  rfl

theorem script_ofLocation (name : String) :
    (Layout.mk (.ofLocation folder) defaultElmVersion).scripts.child name =
      .ofLocation (folder ++ ["elm-stuff", "tests-0.19.1", "js"] ++ [name]) := by
  rw [scripts_eq]
  rfl

/-- The compiler finds a location by its path. -/
theorem told_ofLocation (layout : Layout) {names : List String} (hproper : ∀ name ∈ names, ProperName name) :
    layout.told (.ofLocation names) = .ofLocation names := by
  have hself : Path.ofString (Path.ofLocation names).toString = .ofLocation names :=
    Path.ofString_toString (by simp [Path.ofLocation]) fun part hpart =>
      Path.isPart_of_properName (hproper part hpart)
  rw [told, hself, Path.join, if_neg (by simp [Path.ofLocation])]

end Layout

/-! ### Tools -/

section Tools

variable {clean worn : Disk} {folder more : List String} {last : String} {first : Nat}
  {context : RunContext} {options : RunOptions} {P : World → Prop}

/-- A tool that does nothing elsewhere leaves paired worlds as they are. -/
theorem alike_affect {effect : Disk → Disk} (heffect : effect = id) :
    (affect effect).Alike (Paired clean worn folder) (PairedWith clean worn folder P)
      (PairedWith clean worn folder P) := by
  subst heffect
  exact .still (fun _ => rfl) PairedWith.paired fun _ _ _ => rfl

section Compiler

variable (hplain : Discovery.PlainProject clean folder) (hsteady : context.tools.Steady first)
include hplain hsteady

/-- A compilation that succeeds has left a script in both worlds. -/
theorem alike_compileScript (hmore : more ∈ storeFolders) (hlast : last ∈ storeNames)
    (sources : List String) :
    (Pipeline.compile context options ⟨.ofLocation folder, defaultElmVersion⟩
        (.ofLocation (folder ++ more ++ [last])) sources).Alike (Paired clean worn folder)
      (PairedWith clean worn folder fun world => first < world.compilerCalls)
      (PairedWith clean worn folder (HasNode (folder ++ more ++ [last]))) := by
  rintro bare full ⟨h, hcalls⟩
  rw [Pipeline.compile, Compiler.run_compile, Compiler.run_compile, ← h.compilerCalls]
  have helsewhere := hsteady.compiler bare.compilerCalls
  have houtput := hsteady.output bare.compilerCalls
  have hscript := hsteady.scripts bare.compilerCalls hcalls
  generalize context.tools.compiler bare.compilerCalls = reply at helsewhere houtput hscript
  have hproper : ∀ name ∈ folder ++ more ++ [last], ProperName name := by
    rw [List.append_assoc]
    exact properNames_append hplain (properNames_store hmore hlast)
  have htold : (Path.ofString (Layout.mk (.ofLocation folder) defaultElmVersion).root.toString).join
      (.ofString (Path.ofLocation (folder ++ more ++ [last])).toString) =
        .ofLocation (folder ++ more ++ [last]) := Layout.told_ofLocation _ hproper
  have hleave : (Compiler.leave reply options.compiler
      (Layout.mk (.ofLocation folder) defaultElmVersion).root.toString
      (Path.ofLocation (folder ++ more ++ [last])).toString).Alike (Paired clean worn folder)
        (PairedWith clean worn folder fun _ => True)
        (PairedWith clean worn folder fun world =>
          reply.output ≠ none → HasNode (folder ++ more ++ [last]) world) := by
    unfold Compiler.leave
    cases hreply : reply.output with
    | none =>
        exact Alike.mono (.pure PairedWith.paired ()) (fun _ _ hin => ⟨hin.1, fun hsome => absurd rfl hsome⟩)
          fun _ _ hin => hin
    | some content =>
        obtain ⟨bytes, rfl⟩ := houtput content hreply
        rw [htold]
        exact (Alike.orElse (alike_placeFile hplain hmore hlast bytes) _).mono (fun _ _ hin => hin)
          fun _ _ hin => ⟨hin.1, fun _ => hin.2⟩
  have hrespond : (Compiler.respond reply options.compiler
      (Layout.mk (.ofLocation folder) defaultElmVersion).root.toString
      (Path.ofLocation (folder ++ more ++ [last])).toString sources).Alike (Paired clean worn folder)
        (PairedWith clean worn folder fun _ => True)
        (PairedWith clean worn folder (HasNode (folder ++ more ++ [last]))) := by
    unfold Compiler.respond
    cases hrefusal : reply.refusal with
    | some refusal => exact .trouble PairedWith.paired _
    | none =>
        refine .bind (alike_affect helsewhere) fun _ => .bind hleave fun _ => ?_
        unfold Compiler.exit
        split
        · exact .trouble PairedWith.paired _
        · next hcode =>
          have hsome := hscript hrefusal (Decidable.not_not.1 hcode)
          exact Alike.mono (.pure PairedWith.paired ()) (fun _ _ hin => ⟨hin.1, hin.2 hsome⟩)
            fun _ _ hin => hin
  exact hrespond _ _ ⟨h.add [_] [_], trivial⟩

end Compiler

/-- A compilation that only checks its sources leaves nothing. -/
theorem alike_compileCheck (hsteady : context.tools.Steady first) (layout : Layout) (sources : List String) :
    (Pipeline.compile context options layout Compiler.noOutput sources).Alike (Paired clean worn folder)
      (PairedWith clean worn folder fun world => world.compilerCalls = first) (Paired clean worn folder) := by
  rintro bare full ⟨h, hcalls⟩
  rw [Pipeline.compile, Compiler.run_compile, Compiler.run_compile, ← h.compilerCalls, hcalls]
  have helsewhere := hsteady.compiler first
  have houtput := hsteady.checks
  generalize context.tools.compiler first = reply at helsewhere houtput
  have hkept : ∀ bare full, PairedWith clean worn folder (fun _ => True) bare full →
      Paired clean worn folder bare full := PairedWith.paired
  have hrespond : (Compiler.respond reply options.compiler layout.root.toString Compiler.noOutput.toString
      sources).Alike (Paired clean worn folder) (PairedWith clean worn folder fun _ => True)
        (PairedWith clean worn folder fun _ => True) := by
    unfold Compiler.respond
    cases reply.refusal with
    | some refusal => exact .trouble hkept _
    | none =>
        refine .bind (alike_affect helsewhere) fun _ => ?_
        rw [Compiler.leave, houtput]
        refine .bind (.pure hkept ()) fun _ => ?_
        unfold Compiler.exit
        split
        · exact .trouble hkept _
        · exact .pure hkept ()
  exact (hrespond.mono (fun _ _ hin => hin) hkept) _ _ ⟨h.add [_] [_], trivial⟩

/-- The solver is asked about the same manifest in both worlds. -/
theorem alike_solver (hplain : Discovery.PlainProject clean folder) (hquiet : context.tools.Quiet)
    (hmore : ∀ name ∈ more, ProperName name) (hne : more ≠ []) (executable : String) (extra : List String) :
    (Solver.solve context.tools.solver executable extra (Path.ofLocation (folder ++ more)).toString).Alike
      (Paired clean worn folder) (PairedWith clean worn folder (HasNode (folder ++ more)))
      (Paired clean worn folder) := by
  rintro bare full ⟨h, htaken⟩
  have hmanifest : Solver.manifestText? bare.disk (Path.ofLocation (folder ++ more)).toString =
      Solver.manifestText? full.disk (Path.ofLocation (folder ++ more)).toString := by
    rw [Solver.manifestText?, Solver.manifestText?, h.readText_eq hplain hmore hne htaken]
  have hkept : ∀ bare full, PairedWith clean worn folder (fun _ => True) bare full →
      Paired clean worn folder bare full := PairedWith.paired
  have hrespond : (Solver.respond context.tools.solver executable).Alike (Paired clean worn folder)
      (PairedWith clean worn folder fun _ => True) (PairedWith clean worn folder fun _ => True) := by
    unfold Solver.respond
    cases context.tools.solver.refusal with
    | some refusal => exact .trouble hkept _
    | none => exact .bind (alike_affect hquiet.solver) fun _ => .result hkept _
  rw [Solver.run_solve, Solver.run_solve, ← hmanifest]
  exact (hrespond.mono (fun _ _ hin => hin) hkept) _ _ ⟨h.add [_] [_], trivial⟩

theorem alike_node (hquiet : context.tools.Quiet) (executable project worker : String) :
    (NodeProcess.supervise context.tools.node executable project worker).Alike (Paired clean worn folder)
      (PairedWith clean worn folder fun _ => True) (PairedWith clean worn folder fun _ => True) := by
  rintro bare full ⟨h, -⟩
  have hrespond : (NodeProcess.respond context.tools.node executable).Alike (Paired clean worn folder)
      (PairedWith clean worn folder fun _ => True) (PairedWith clean worn folder fun _ => True) := by
    unfold NodeProcess.respond
    cases context.tools.node.refusal with
    | some refusal => exact .trouble PairedWith.paired _
    | none =>
        exact .bind (alike_affect hquiet.node) fun _ =>
          .bind (alike_say (fun _ _ _ => trivial) _) fun _ => .pure PairedWith.paired _
  rw [NodeProcess.run_supervise, NodeProcess.run_supervise]
  exact hrespond _ _ ⟨h.add [_] [_], trivial⟩

end Tools

/-! ### Test modules -/

theorem findTests_congr {roots files : List Path} {read other : Path → Except Trouble (List Char)}
    (h : ∀ file ∈ files, read file = other file) : findTests roots read files = findTests roots other files := by
  apply mapM_congr
  intro file hfile
  rw [h file ((Pipeline.sortPaths_perm files).mem_iff.1 hfile)]

/-- Files that are no part of the generated project and stand on the clean disk. -/
def HostFiles (clean : Disk) (folder : List String) (files : List Path) : Prop :=
  ∀ file ∈ files, ∃ more node, file = .ofLocation (folder ++ more) ∧ more ≠ [] ∧
    (∀ name ∈ more, ProperName name) ∧ clean.nodeAt? (folder ++ more) = some node

theorem alike_findTests {clean worn : Disk} {folder : List String} {files : List Path}
    (hplain : Discovery.PlainProject clean folder) (hfiles : HostFiles clean folder files)
    (synthesis : Synthesis) :
    (Pipeline.findTests synthesis files).Alike (Paired clean worn folder)
      (PairedWith clean worn folder fun _ => True) (PairedWith clean worn folder fun _ => True) := by
  refine Alike.bind (alike_say (fun _ _ _ => trivial) _) fun _ => Alike.disk fun bare full ⟨h, _⟩ => ?_
  have hread : ∀ file ∈ files,
      Discovery.readTestFile bare.disk file = Discovery.readTestFile full.disk file := by
    intro file hfile
    obtain ⟨more, node, rfl, hne, hproper, hnode⟩ := hfiles file hfile
    obtain ⟨later, hlater, -⟩ := h.grown.kept _ _ hnode
    rw [Discovery.readTestFile, Discovery.readTestFile,
      h.readText_eq hplain hproper hne ⟨later, hlater⟩]
  rw [findTests_congr hread]
  exact ⟨rfl, .result PairedWith.paired _⟩

/-! ### The manifest -/

/-- A path is located alike on two disks, and is a folder on both or on none. -/
structure SameFolder (clean worn : Disk) (asked : Path) : Prop where
  locate : clean.locate asked = worn.locate asked
  isFolder : ∀ found, clean.locate asked = .ok found →
    clean.isFolder found.toString = worn.isFolder found.toString

/-- The manifest of a project is read alike on two disks, and so are the folders that it tells. -/
structure SameSources (clean worn : Disk) (folder : List String) : Prop where
  cwd : clean.cwd = worn.cwd
  manifest : clean.readText (Path.ofLocation (folder ++ ["elm.json"])).toString =
    worn.readText (Path.ofLocation (folder ++ ["elm.json"])).toString
  root : clean.locateLeniently (.ofLocation folder) = .ok (.ofLocation folder)
  root' : worn.locateLeniently (.ofLocation folder) = .ok (.ofLocation folder)
  generated : clean.locateLeniently (.ofLocation (folder ++ ["elm-stuff", "tests-0.19.1"])) =
    worn.locateLeniently (.ofLocation (folder ++ ["elm-stuff", "tests-0.19.1"]))
  folders : ∀ text host, clean.readText (Path.ofLocation (folder ++ ["elm.json"])).toString = .ok text →
    Manifest.ofText text (some (Path.ofLocation (folder ++ ["elm.json"])).toString) = .ok host →
      ∀ directory ∈ host.toApplication.sourceDirectories ++ [Synthesis.testsDirectory],
        SameFolder clean worn ((Path.ofLocation folder).join (.ofString directory.lossy))

section Synthesize

variable {clean worn : Disk} {folder : List String}

/-- Paired worlds of a run that has changed nothing yet. -/
abbrev Unchanged (clean worn : Disk) (folder : List String) : World → World → Prop :=
  Discovery.OnDisks (Paired clean worn folder) clean worn

theorem Unchanged.paired (bare full : World) (h : Unchanged clean worn folder bare full) :
    Paired clean worn folder bare full :=
  h.1

theorem alike_sourceDirectory {directory : Codes}
    (h : SameFolder clean worn ((Path.ofLocation folder).join (.ofString directory.lossy))) :
    (Synthesis.sourceDirectory (.ofLocation folder) directory).Alike (Paired clean worn folder)
      (Unchanged clean worn folder) (Unchanged clean worn folder) := by
  have hkept := @Unchanged.paired clean worn folder
  refine Alike.bind_run (.result hkept _) fun asked _ _ _ _ hasked => ?_
  obtain rfl : asked = (Path.ofLocation folder).join (.ofString directory.lossy) := by
    obtain ⟨hpath, -⟩ := run_ofFault_eq_ok.1 hasked
    unfold Synthesis.pathOf at hpath
    split at hpath
    · cases hpath
    · cases hpath
      rfl
  refine Alike.bind_run (.orElse (.look hkept ?_) _) fun found before _ _ hbefore hfound => ?_
  · rintro bare full ⟨-, rfl, rfl⟩
    exact h.locate
  have hlocated : clean.locate ((Path.ofLocation folder).join (.ofString directory.lossy)) = .ok found := by
    rw [run_orElse] at hfound
    split at hfound
    · next hlook =>
      cases hfound
      rw [← hbefore.2.1]
      exact (run_look_eq_ok.1 hlook).1
    · cases hfound
    · cases hfound
  apply Alike.disk
  rintro bare full ⟨-, rfl, rfl⟩
  rw [h.isFolder found hlocated]
  refine ⟨rfl, ?_⟩
  split
  · exact .pure hkept _
  · exact .trouble hkept _

theorem alike_ofText (h : SameSources clean worn folder) {text : List Char} (helper : Path)
    (htext : clean.readText (Path.ofLocation (folder ++ ["elm.json"])).toString = .ok text) :
    (Synthesis.ofText text (.ofLocation folder)
        (Layout.mk (.ofLocation folder) defaultElmVersion).root helper).Alike (Paired clean worn folder)
      (Unchanged clean worn folder) (Unchanged clean worn folder) := by
  have hkept := @Unchanged.paired clean worn folder
  refine Alike.bind_run (.look hkept ?_) fun root before _ _ hbefore hroot => ?_
  · rintro bare full ⟨-, rfl, rfl⟩
    rw [h.root, h.root']
  obtain rfl : root = .ofLocation folder := by
    obtain ⟨hroot, -⟩ := run_look_eq_ok.1 hroot
    rw [hbefore.2.1, h.root] at hroot
    exact (Except.ok.inj hroot).symm
  refine Alike.bind (.look hkept ?_) fun generated => ?_
  · rintro bare full ⟨-, rfl, rfl⟩
    rw [Layout.root_ofLocation, Path.join, if_neg (by simp [Path.ofLocation])]
    exact h.generated
  refine Alike.bind_run (.result hkept _) fun host _ _ _ _ hhost => ?_
  have hhost : Manifest.ofText text (some (Path.ofLocation (folder ++ ["elm.json"])).toString) = .ok host :=
    (Prod.mk.inj hhost).1
  have hdirectories : (Synthesis.sourceDirectories host.toApplication.sourceDirectories (.ofLocation folder)).Alike
      (Paired clean worn folder) (Unchanged clean worn folder) (Unchanged clean worn folder) :=
    .bind (.mapM hkept fun directory hdirectory =>
      alike_sourceDirectory (h.folders text host htext hhost directory hdirectory)) fun _ => .pure hkept _
  refine Alike.bind hdirectories fun directories => Alike.disk ?_
  rintro bare full ⟨-, rfl, rfl⟩
  rw [Synthesis.relativeTo, Synthesis.relativeTo, h.cwd]
  exact ⟨rfl, .pure hkept _⟩

theorem alike_synthesize (hplain : Discovery.PlainProject clean folder) (h : SameSources clean worn folder)
    (context : RunContext) :
    (Pipeline.synthesize context ⟨.ofLocation folder, defaultElmVersion⟩).Alike (Paired clean worn folder)
      (Unchanged clean worn folder) (Paired clean worn folder) := by
  have hkept := @Unchanged.paired clean worn folder
  refine Alike.bind_run (.orElse (.look hkept ?_) _) fun text before _ _ hbefore htext => ?_
  · rintro bare full ⟨-, rfl, rfl⟩
    exact h.manifest
  have hread : clean.readText (Path.ofLocation (folder ++ ["elm.json"])).toString = .ok text := by
    rw [ManifestFile.readText, run_orElse] at htext
    split at htext
    · next hlook =>
      cases htext
      rw [← hbefore.2.1]
      exact (run_look_eq_ok.1 hlook).1
    · cases htext
    · cases htext
  refine Alike.bind (alike_ofText h _ hread) fun synthesis => ?_
  have hfolder {more : List String} (hmore : more ∈ storeFolders) {P : World → Prop} :
      (makeFolders (.ofLocation (folder ++ more))).Alike (Paired clean worn folder)
        (PairedWith clean worn folder P) (PairedWith clean worn folder fun _ => True) :=
    (alike_makeFolders hplain (properName_of_mem_storeFolders more hmore) (ne_nil_of_mem_storeFolders more hmore)
      fun _ => not_mem_generatedFiles hmore).mono (fun _ _ hin => hin) fun _ _ hin => ⟨hin.1, trivial⟩
  have hfolders : (Pipeline.makeFolders ⟨.ofLocation folder, defaultElmVersion⟩).Alike
      (Paired clean worn folder) (PairedWith clean worn folder fun _ => True)
      (PairedWith clean worn folder fun _ => True) := by
    rw [Pipeline.makeFolders, sources_eq, scripts_eq]
    exact Alike.bind (hfolder (by decide)) fun _ => hfolder (by decide)
  have hwrites : (Pipeline.makeFolders ⟨.ofLocation folder, defaultElmVersion⟩ >>= fun _ =>
      ManifestFile.write synthesis.app (Layout.mk (.ofLocation folder) defaultElmVersion).manifest >>= fun _ =>
        pure synthesis).Alike (Paired clean worn folder) (PairedWith clean worn folder fun _ => True)
      (Paired clean worn folder) := by
    refine .bind hfolders fun _ => ?_
    rw [Layout.manifest_ofLocation]
    exact Alike.bind (alike_writeManifest hplain (by decide) (by decide) _) fun _ =>
      Alike.mono (.pure PairedWith.paired _) (fun _ _ hin => hin) PairedWith.paired
  exact hwrites.mono (fun _ _ hin => ⟨hin.1, trivial⟩) fun _ _ hin => hin

end Synthesize

end ElmSuite
