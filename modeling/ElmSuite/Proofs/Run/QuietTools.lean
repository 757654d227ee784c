import ElmSuite.Proofs.Run.GeneratedProject
import ElmSuite.Proofs.Run.ToolCalls

/-!
Runs whose tools write nowhere but where they are told to.  If they write nothing but files there,
every stage lets the disk grow, and a stage leaves the file at a location alone unless one of its own
files is there.
-/

namespace ElmSuite

open Act

/-- Tools that leave nothing anywhere but at the output that they are told. -/
structure Tools.Confined (tools : Tools) : Prop where
  compiler : ∀ n, (tools.compiler n).elsewhere = id
  solver : tools.solver.elsewhere = id
  node : tools.node.elsewhere = id

/-- Tools that write nothing but a regular file at the output that they are told. -/
structure Tools.Quiet (tools : Tools) : Prop where
  compiler : ∀ n, (tools.compiler n).elsewhere = id
  output : ∀ n content, (tools.compiler n).output = some content → ∃ bytes, content = .file bytes
  solver : tools.solver.elsewhere = id
  node : tools.node.elsewhere = id

theorem Tools.Quiet.confined {tools : Tools} (h : tools.Quiet) : tools.Confined :=
  ⟨h.compiler, h.solver, h.node⟩

namespace Pipeline

/-- The files that a stage writes. -/
def written (layout : Layout) : Stage → List Path
  | .synthesize => [layout.manifest]
  | .solve => [layout.manifest]
  | .compileTests => [layout.told Compiler.noOutput]
  | .generateRunner => [layout.runnerSource]
  | .compileRunner => [layout.told layout.runnerScript, layout.runnerScript]
  | .generateNodeRunner => [layout.nodeRunner]
  | .compileReporter => [layout.told layout.reporterScript]
  | .generateSupervisor => [layout.nodeSupervisor]
  | _ => []

/-- The folders that a stage makes before it writes anything. -/
def made (layout : Layout) : Stage → List Path
  | .synthesize => [layout.sources, layout.scripts]
  | _ => []

section Confined

variable {relation : World → World → Prop} {makable : Path → Prop} {writable : String → Prop}
  (hcalls : ∀ world calls, relation world { world with calls })
  {context : RunContext} (hconfined : context.tools.Confined)
include hcalls hconfined

/-- What a compilation does to the world, if a relation holds across whatever is put at its output. -/
theorem relation_compile (h : Tolerant relation) (options : RunOptions) {layout : Layout}
    {output : Path} {world : World}
    (hplace : ∀ content, (context.tools.compiler world.compilerCalls).output = some content →
      (place (layout.told output) content).Keeps relation) (sources : List String) :
    relation world ((compile context options layout output sources).run world).2 := by
  have haffect : (affect (context.tools.compiler world.compilerCalls).elsewhere).Keeps relation := by
    rw [hconfined.compiler]
    exact fun world => h.refl world
  rw [compile, Compiler.run_compile]
  apply h.trans (h.lines world _)
  exact h.trans (hcalls _ _) (Compiler.keeps_respond h sources haffect hplace _)

theorem keeps_solver (h : Tolerant relation) (executable : String) (extra : List String)
    (manifest : String) :
    (Solver.solve context.tools.solver executable extra manifest).Keeps relation := by
  intro world
  have haffect : (affect context.tools.solver.elsewhere).Keeps relation := by
    rw [hconfined.solver]
    exact fun world => h.refl world
  rw [Solver.run_solve]
  apply h.trans (h.lines world _)
  exact h.trans (hcalls _ _) (Solver.keeps_respond h _ haffect _)

theorem keeps_solve (h : Permissive relation makable writable) {layout : Layout}
    (hfolder : makable layout.manifest.parent) (hmanifest : writable layout.manifest.toString)
    (app : Application) :
    (solve context layout app).Keeps relation := by
  apply Keeps.bind h.toLasting (h.say _)
  intro _
  apply Keeps.bind h.toLasting (keeps_solver hcalls hconfined h.toTolerant _ _ _)
  intro found
  exact .bind h.toLasting (ManifestFile.keeps_write h _ hfolder hmanifest) fun _ => h.result fun _ => rfl

theorem keeps_supervise (h : Tolerant relation) (layout : Layout) :
    (supervise context layout).Keeps relation := by
  apply Keeps.bind h.toLasting (h.say _)
  intro _
  apply Keeps.bind h.toLasting (h.say _)
  intro _
  have haffect : (affect context.tools.node.elsewhere).Keeps relation := by
    rw [hconfined.node]
    exact fun world => h.refl world
  apply Keeps.bind h.toLasting
  · intro world
    rw [NodeProcess.run_supervise]
    apply h.trans (h.lines world _)
    exact h.trans (hcalls _ _) (NodeProcess.keeps_respond h _ haffect _)
  · intro code
    exact .bind h.toLasting (h.say _) fun _ => h.result fun _ => rfl

end Confined

section Quiet

variable {relation : World → World → Prop} {makable : Path → Prop} {writable : String → Prop}
  (h : Permissive relation makable writable)
  (hcalls : ∀ world calls, relation world { world with calls })
  {context : RunContext} (hquiet : context.tools.Quiet)
include h hcalls hquiet

theorem keeps_compile (options : RunOptions) {layout : Layout} {output : Path}
    (houtput : makable (layout.told output).parent ∧ writable (layout.told output).toString)
    (sources : List String) :
    (compile context options layout output sources).Keeps relation := by
  intro world
  apply relation_compile hcalls hquiet.confined h.toTolerant
  intro content hcontent
  obtain ⟨bytes, rfl⟩ := hquiet.output _ _ hcontent
  exact h.placeFile houtput.1 houtput.2 bytes

/-- What tolerates lines, calls, and the folders and files that a stage makes and writes holds across
the stage. -/
theorem keeps_perform (options : RunOptions) {layout : Layout} {stage : Stage} (found : Findings)
    (hfolders : ∀ path ∈ made layout stage, makable path)
    (hfiles : ∀ path ∈ written layout stage, makable path.parent ∧ writable path.toString) :
    (perform context options layout found stage).Keeps relation := by
  cases stage with
  | validateOptions => exact .map (h.result fun _ => rfl) _
  | discover => exact .map (Discovery.keeps_collect h.toTolerant _ _) _
  | synthesize =>
      obtain ⟨hfolder, hmanifest⟩ := hfiles layout.manifest (by simp [written])
      exact .map (keeps_synthesize h context (hfolders _ (by simp [made])) (hfolders _ (by simp [made]))
        hfolder hmanifest) _
  | solve =>
      obtain ⟨hfolder, hmanifest⟩ := hfiles layout.manifest (by simp [written])
      exact .map (keeps_solve hcalls hquiet.confined h hfolder hmanifest _) _
  | compileTests =>
      have hcompile := keeps_compile h hcalls hquiet options (hfiles _ (List.mem_singleton.2 rfl))
      exact .map (.bind h.toLasting (h.say _) fun _ => hcompile _) _
  | findTests => exact .map (keeps_findTests h.toTolerant _ _) _
  | generateRunner =>
      obtain ⟨hfolder, hfile⟩ := hfiles layout.runnerSource (by simp [written])
      exact .map (Generation.keeps_writeRendered h _ _ _ hfolder hfile) _
  | compileRunner =>
      have hcompile := keeps_compile h hcalls hquiet options (hfiles _ List.mem_cons_self)
      have hpatch := Generation.keeps_patchFile h context.tag
        (hfiles layout.runnerScript (by simp [written])).2
      exact .map (.bind h.toLasting (h.say _) fun _ =>
        .bind h.toLasting (hcompile _) fun _ => hpatch) _
  | generateNodeRunner =>
      obtain ⟨hfolder, hfile⟩ := hfiles layout.nodeRunner (by simp [written])
      exact .map (Generation.keeps_writeRendered h _ _ _ hfolder hfile) _
  | compileReporter =>
      have hcompile := keeps_compile h hcalls hquiet options (hfiles _ (List.mem_singleton.2 rfl))
      exact .map (.bind h.toLasting (h.say _) fun _ =>
        .bind h.toLasting (hcompile _) fun _ => h.result fun _ => rfl) _
  | generateSupervisor =>
      obtain ⟨hfolder, hfile⟩ := hfiles layout.nodeSupervisor (by simp [written])
      exact .map (Generation.keeps_writeRendered h _ _ _ hfolder hfile) _
  | supervise => exact .map (keeps_supervise hcalls hquiet.confined h.toTolerant layout) _

end Quiet

/-! ### Relations between disks -/

/-- The disk grows. -/
def Enlarges (before after : World) : Prop :=
  before.disk.Grows (fun _ => False) after.disk

theorem permissive_enlarges : Permissive Enlarges (fun _ => True) fun _ => True where
  refl world := .refl _ world.disk
  trans hfirst hsecond := hfirst.trans hsecond
  lines world _ := .refl _ world.disk
  folders world path _ := Disk.makeFolders_grow _ path world.disk
  files world path bytes disk _ hdisk := by
    rcases Disk.writeBytes_eq_ok hdisk with ⟨location, -, hgrows⟩ | ⟨rfl, -⟩
    · exact hgrows.mono fun _ hfalse => hfalse.elim
    · exact .refl _ _

/-- As long as the generated project is settled, the disk grows and the file at a location keeps its
bytes. -/
def Spares (root : Path) (folder location : List String) (before after : World) : Prop :=
  Settled root folder before.disk → before.disk.Grows (fun other => other = location) after.disk

theorem permissive_spares (root : Path) (folder location : List String) :
    Permissive (Spares root folder location) (fun _ => True) fun text =>
      ∀ disk found node, Settled root folder disk → disk.find text = .ok (found, node) →
        found ≠ location where
  refl world _ := .refl _ world.disk
  trans hfirst hsecond hsettled := by
    have hgrows := hfirst hsettled
    exact hgrows.trans (hsecond (hsettled.grow hgrows))
  lines world _ _ := .refl _ world.disk
  folders world path _ _ := Disk.makeFolders_grow _ path world.disk
  files world path bytes disk hwritable hdisk hsettled := by
    rcases Disk.writeBytes_eq_ok hdisk with ⟨found, hfind, hgrows⟩ | ⟨rfl, -⟩
    · have hne := hwritable disk found _ (hsettled.grow hgrows) hfind
      apply hgrows.mono
      rintro other rfl
      exact Ne.symm hne
    · exact .refl _ _

end Pipeline

end ElmSuite
