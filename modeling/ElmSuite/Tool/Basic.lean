import ElmSuite.World

/-!
External tools as the program sees them: a tool cannot be started, or it leaves something behind and
exits with a code.  What the tools do is given; the program decides what they are asked.
-/

namespace ElmSuite

/-- Why a tool cannot be started. -/
inductive Refusal
  | notFound
  | notPermitted
deriving DecidableEq, Repr

/-- The refusal as the operating system reports it. -/
def Refusal.error (refusal : Refusal) (executable : String) : OsError :=
  match refusal with
  | .notFound => ⟨.notFound, executable⟩
  | .notPermitted => ⟨.notPermitted, executable⟩

/-- What may be put at a path: a file, an empty folder, or a link. -/
inductive Content
  | file (bytes : List UInt8)
  | folder
  | link (target : String)
deriving DecidableEq, Repr

/-- Puts something at a path, in a folder that is made if it is missing. -/
def Act.place (path : Path) : Content → Act Unit
  | .file bytes => do
      Act.makeFolders path.parent
      Act.change fun disk => disk.writeBytes path.toString bytes
  | .folder => Act.makeFolders path
  | .link target => do
      Act.makeFolders path.parent
      Act.change fun disk => disk.makeLink path.toString target

/-- What the compiler does when it is asked: it may write something to the output it is told, it
exits with a code, and nothing keeps it from changing the disk elsewhere. -/
structure CompilerReply where
  refusal : Option Refusal := none
  output : Option Content := none
  code : Int := 0
  elsewhere : Disk → Disk := id

/-- What the solver does when it is asked: it prints something, exits with a code, and may change
the disk. -/
structure SolverReply where
  refusal : Option Refusal := none
  printed : List UInt8 := Text.Utf8.encode "\x7b\x7d".toList
  code : Int := 0
  elsewhere : Disk → Disk := id

/-- What node does when it is asked: it exits with a code, unless it is ended from outside, and may
change the disk. -/
structure NodeReply where
  refusal : Option Refusal := none
  code : Option Int := some 0
  elsewhere : Disk → Disk := id

/-- What the tools do: the compiler in each of its calls, counted from zero, the solver, and
node. -/
structure Tools where
  compiler : Nat → CompilerReply := fun _ => {}
  solver : SolverReply := {}
  node : NodeReply := {}

/-- The tools of a machine on which none is installed. -/
def Tools.absent : Tools where
  compiler := fun _ => { refusal := some .notFound }
  solver := { refusal := some .notFound }
  node := { refusal := some .notFound }

/-- Whether a call is one of the compiler. -/
def ToolCall.isCompiler : ToolCall → Bool
  | .compiler _ _ => true
  | _ => false

/-- The number of calls of the compiler so far. -/
def World.compilerCalls (world : World) : Nat :=
  (world.calls.filter ToolCall.isCompiler).length

/-- Ends with the failure of a tool that did not start. -/
def Act.failToStart {α : Type} (executable : String) (error : OsError) : Act α :=
  Act.fail (.toolNotStarted executable (some error.message))

/-- Lets a tool that runs do to the disk what it does. -/
def Act.affect (effect : Disk → Disk) : Act Unit :=
  modify fun world => { world with disk := effect world.disk }

/-- Does something on behalf of a tool; what the operating system refuses counts as a failed
start. -/
def Act.onBehalf {α : Type} (executable : String) (act : Act α) : Act α :=
  act.orElse fun
    | .os error => some (.failure (.toolNotStarted executable (some error.message)))
    | _ => none

end ElmSuite
