import ElmSuite.Proofs.Disk.Faults
import ElmSuite.Proofs.Run.ToolCalls

/-!
What goes wrong in the parts of a run.  A failure and a refusal of the operating system are reported
as the failure of a stage; any other fault leaves the run.  The parts that work on the paths of the
generated project end with troubles of the first kind only.
-/

namespace ElmSuite

/-- Whether a run reports a trouble as the failure of a stage. -/
def Trouble.isReported : Trouble → Bool
  | .failure _ => true
  | .fault cause => cause.isRefusal

/-- A trouble that is reported, or a fault that has a property. -/
def Trouble.ReportedUnless (P : Fault → Prop) : Trouble → Prop
  | .failure _ => True
  | .fault cause => cause.isRefusal = true ∨ P cause

namespace Act

variable {α β : Type} {P : Fault → Prop} {disk : Disk}

/-- Everything that goes wrong in an action is reported. -/
def Reports (act : Act α) : Prop :=
  ∀ world, FailsOnly (fun trouble => trouble.isReported = true) (act.run world).1

/-- Everything that goes wrong in an action on a disk is reported, but for faults that have a
property. -/
def ReportsUnless (disk : Disk) (P : Fault → Prop) (act : Act α) : Prop :=
  ∀ world, world.disk = disk → FailsOnly (Trouble.ReportedUnless P) (act.run world).1

theorem Reports.unless {act : Act α} (h : act.Reports) (disk : Disk) (P : Fault → Prop) :
    act.ReportsUnless disk P := by
  intro world _ trouble htrouble
  have hreported := h world trouble htrouble
  cases trouble with
  | failure cause => trivial
  | fault fault => exact .inl hreported

/-! ### Actions that report everything -/

theorem Reports.of_run {act : Act α} (h : ∀ world, ∃ value after, act.run world = (.ok value, after)) :
    act.Reports := by
  intro world
  obtain ⟨value, after, hrun⟩ := h world
  rw [hrun]
  exact .ok value

theorem reports_pure (value : α) : (pure value : Act α).Reports :=
  .of_run fun world => ⟨value, world, rfl⟩

theorem reports_say (line : Line) : (say line).Reports :=
  .of_run fun _ => ⟨_, _, rfl⟩

theorem reports_record (call : ToolCall) : (record call).Reports :=
  .of_run fun _ => ⟨_, _, rfl⟩

theorem reports_affect (effect : Disk → Disk) : (affect effect).Reports :=
  .of_run fun _ => ⟨_, _, rfl⟩

theorem reports_disk : Act.disk.Reports :=
  .of_run fun _ => ⟨_, _, rfl⟩

theorem reports_ofFailure (result : Except Failure α) : (ofFailure result).Reports := by
  intro world
  rw [run_ofFailure]
  exact .mapError fun _ _ => rfl

theorem reports_fail (cause : Failure) : (fail cause : Act α).Reports :=
  fun _ => .error rfl

/-- What follows an action may rely on the value that the action gives. -/
theorem Reports.bind_of_run {act : Act α} {next : α → Act β} (h : act.Reports)
    (hnext : ∀ value world after, act.run world = (.ok value, after) → (next value).Reports) :
    (act >>= next).Reports := by
  intro world
  have hfirst := h world
  rw [run_bind]
  rcases hrun : act.run world with ⟨trouble | value, after⟩
  · rw [hrun] at hfirst
    exact .error (hfirst trouble rfl)
  · exact hnext value world after hrun after

theorem Reports.bind {act : Act α} {next : α → Act β} (h : act.Reports)
    (hnext : ∀ value, (next value).Reports) : (act >>= next).Reports :=
  h.bind_of_run fun value _ _ _ => hnext value

theorem Reports.map {act : Act α} (h : act.Reports) (f : α → β) : (f <$> act).Reports := by
  intro world
  rw [run_map]
  exact (h world).map f

/-- A refusal may be reported as another trouble. -/
theorem Reports.orElse {act : Act α} {known : Fault → Option Trouble} (h : act.Reports)
    (hknown : ∀ fault trouble, known fault = some trouble → trouble.isReported = true) :
    (act.orElse known).Reports := by
  intro world
  have hact := h world
  rw [run_orElse]
  rcases hrun : act.run world with ⟨trouble | value, after⟩
  · rw [hrun] at hact
    have htrouble := hact trouble rfl
    cases trouble with
    | failure cause => exact .error rfl
    | fault fault =>
        refine .error ?_
        cases hfault : known fault with
        | none => exact htrouble
        | some trouble => exact hknown fault trouble hfault
  · exact .ok value

theorem reports_look {question : Disk → Except Fault α}
    (h : ∀ disk, FailsOnly (fun fault => fault.isRefusal = true) (question disk)) :
    (look question).Reports := by
  intro world
  rw [run_look]
  exact (h world.disk).mapError

theorem reports_change {operation : Disk → Except Fault Disk}
    (h : ∀ disk, FailsOnly (fun fault => fault.isRefusal = true) (operation disk)) :
    (change operation).Reports :=
  .bind (reports_look h) fun _ => .of_run fun _ => ⟨_, _, rfl⟩

section NoNull

variable {path : Path} (hpath : path.NoNull)
include hpath

theorem reports_makeFolders : (makeFolders path).Reports := by
  intro world
  rw [run_makeFolders]
  exact (Disk.failsOnly_makeFolders hpath world.disk).mapError

theorem reports_writeText (text : List Char) : (writeText path text).Reports :=
  reports_change fun _ => Disk.failsOnly_writeBytes (Path.noNull_iff.1 hpath) _

theorem reports_place (content : Content) : (place path content).Reports := by
  cases content with
  | file bytes =>
      exact .bind (reports_makeFolders hpath.parent) fun _ =>
        reports_change fun _ => Disk.failsOnly_writeBytes (Path.noNull_iff.1 hpath) bytes
  | folder => exact reports_makeFolders hpath
  | link target =>
      exact .bind (reports_makeFolders hpath.parent) fun _ =>
        reports_change fun _ => Disk.failsOnly_makeLink (Path.noNull_iff.1 hpath) target

end NoNull

/-- On behalf of a tool, a refusal is the failure of a tool that did not start. -/
theorem Reports.onBehalf {act : Act α} (h : act.Reports) (executable : String) :
    (act.onBehalf executable).Reports := by
  refine h.orElse fun fault trouble hknown => ?_
  cases fault with
  | os error =>
      cases hknown
      rfl
  | _ => cases hknown

/-! ### Actions that leave faults alone -/

theorem ReportsUnless.bind {act : Act α} {next : α → Act β} (h : act.ReportsUnless disk P)
    (hsame : act.Keeps SameDisk)
    (hnext : ∀ value world after, world.disk = disk → act.run world = (.ok value, after) →
      (next value).ReportsUnless disk P) : (act >>= next).ReportsUnless disk P := by
  intro world hworld
  have hfirst := h world hworld
  have hdisk := hsame world
  rw [run_bind]
  rcases hrun : act.run world with ⟨trouble | value, after⟩
  · rw [hrun] at hfirst
    exact .error (hfirst trouble rfl)
  · rw [hrun] at hdisk
    exact hnext value world after hworld hrun after (hdisk.trans hworld)

/-- What follows an action that leaves faults alone may change the disk if it reports everything. -/
theorem ReportsUnless.bind_reports {act : Act α} {next : α → Act β} (h : act.ReportsUnless disk P)
    (hnext : ∀ value, (next value).Reports) : (act >>= next).ReportsUnless disk P := by
  intro world hworld
  have hfirst := h world hworld
  rw [run_bind]
  rcases hrun : act.run world with ⟨trouble | value, after⟩
  · rw [hrun] at hfirst
    exact .error (hfirst trouble rfl)
  · exact (hnext value).unless after.disk P after rfl

/-- What comes before an action that leaves faults alone may change the disk if it reports
everything. -/
theorem Reports.bind_unless {act : Act α} {next : α → Act β} (h : act.Reports)
    (hnext : ∀ value disk, (next value).ReportsUnless disk P) : (act >>= next).ReportsUnless disk P := by
  intro world hworld
  have hfirst := h.unless disk P world hworld
  rw [run_bind]
  rcases hrun : act.run world with ⟨trouble | value, after⟩
  · rw [hrun] at hfirst
    exact .error (hfirst trouble rfl)
  · exact hnext value after.disk after rfl

theorem ReportsUnless.mono {Q : Fault → Prop} {act : Act α} (h : act.ReportsUnless disk P)
    (himp : ∀ fault, P fault → Q fault) : act.ReportsUnless disk Q := by
  intro world hworld
  refine (h world hworld).mono fun trouble htrouble => ?_
  cases trouble with
  | failure cause => trivial
  | fault fault => exact htrouble.imp_right (himp fault)

theorem ReportsUnless.map {act : Act α} (h : act.ReportsUnless disk P) (f : α → β) :
    (f <$> act).ReportsUnless disk P := by
  intro world hworld
  rw [run_map]
  exact (h world hworld).map f

theorem ReportsUnless.mapM {f : α → Act β} {items : List α} (hsame : ∀ item, (f item).Keeps SameDisk)
    (h : ∀ item ∈ items, (f item).ReportsUnless disk P) : (items.mapM f).ReportsUnless disk P := by
  induction items with
  | nil => exact (reports_pure []).unless disk P
  | cons item items ih =>
      rw [List.forall_mem_cons] at h
      rw [List.mapM_cons]
      refine .bind h.1 (hsame item) fun value _ _ _ _ => ?_
      exact .bind_reports (ih h.2) fun _ => reports_pure _

end Act

open Act

/-! ### Tools -/

theorem Compiler.reports_compile (reply : Nat → CompilerReply) (executable : String)
    {folder output : String} (hfolder : '\x00' ∉ folder.toList) (houtput : '\x00' ∉ output.toList)
    (sources : List String) : (compile reply executable folder output sources).Reports := by
  intro world
  rw [run_compile]
  generalize reply world.compilerCalls = answer
  have hleave : (leave answer executable folder output).Reports := by
    unfold leave
    split
    · exact (reports_place ((Path.noNull_ofString hfolder).join (Path.noNull_ofString houtput)) _).onBehalf
        executable
    · exact reports_pure ()
  have hexit : (exit answer sources).Reports := by
    unfold exit
    split
    · exact reports_fail _
    · exact reports_pure ()
  have hrespond : (respond answer executable folder output sources).Reports := by
    unfold respond
    split
    · exact reports_fail _
    · exact (reports_affect _).bind fun _ => hleave.bind fun _ => hexit
  exact hrespond _

theorem Solver.reports_solve (reply : SolverReply) (executable : String) (extra : List String)
    (manifest : String) : (solve reply executable extra manifest).Reports := by
  intro world
  rw [run_solve]
  have hrespond : (respond reply executable).Reports := by
    unfold respond
    split
    · exact reports_fail _
    · exact (reports_affect _).bind fun _ => reports_ofFailure _
  exact hrespond _

theorem NodeProcess.reports_supervise (reply : NodeReply) (executable folder worker : String) :
    (supervise reply executable folder worker).Reports := by
  refine (reports_say _).bind fun _ => ?_
  split
  · exact (reports_record _).bind fun _ => reports_fail _
  · exact (reports_record _).bind fun _ => (reports_affect _).bind fun _ =>
      (reports_say _).bind fun _ => reports_pure _

/-! ### Generated files -/

namespace Generation

theorem reports_writeRendered (template : List Char) (name : String)
    (values : OrderedMap String (List Char)) {output : Path} (houtput : output.NoNull) :
    (writeRendered template name values output).Reports :=
  (reports_ofFailure _).bind fun content => (reports_makeFolders houtput.parent).bind fun _ =>
    (reports_writeText houtput content).bind fun _ => (reports_say _).bind fun _ => reports_pure output

end Generation

/-! ### Test modules -/

theorem Discovery.reports_findModules (roots : List Path) {files : List Path}
    (hfiles : ∀ file ∈ files, file.NoNull) : (findModules roots files).Reports := by
  refine reports_disk.bind fun disk world => ?_
  rw [run_ofTrouble]
  refine .mapM fun file hfile => ?_
  have hread : FailsOnly (fun trouble => trouble.isReported = true) (readTestFile disk file) := by
    have hnull := Path.noNull_iff.1 (hfiles file (List.mem_mergeSort.1 hfile))
    unfold readTestFile
    split
    · exact .ok _
    · exact .error rfl
    · exact .error rfl
    · next fault hos hdecode hread =>
      rcases Disk.failsOnly_readText hnull fault hread with hrefusal | ⟨_, defect, -, -, rfl⟩
      · exact .error hrefusal
      · exact absurd rfl (hdecode defect)
  exact .bind (.mapError fun _ _ => rfl) fun name _ => .bind hread fun _ _ => .ok _

end ElmSuite
