import RouteDesk.FileTree.Walk

/-! Programs that can be started: where a name is looked up, what starting one takes, and how
a process ends.
-/

namespace RouteDesk

-----------------------------------------------------------------------------------------
-- Ends of processes
-----------------------------------------------------------------------------------------

/-- How a process ends. -/
inductive Ending where
  | exited (code : Nat)
  | killed (signal : Nat)
deriving DecidableEq

namespace Ending

/-- The names of signals, from the first one on. -/
def signalNames : List String :=
  ["SIGHUP", "SIGINT", "SIGQUIT", "SIGILL", "SIGTRAP", "SIGABRT", "SIGBUS", "SIGFPE",
   "SIGKILL", "SIGUSR1", "SIGSEGV", "SIGUSR2", "SIGPIPE", "SIGALRM", "SIGTERM", "SIGSTKFLT",
   "SIGCHLD", "SIGCONT", "SIGSTOP", "SIGTSTP", "SIGTTIN", "SIGTTOU", "SIGURG", "SIGXCPU",
   "SIGXFSZ", "SIGVTALRM", "SIGPROF", "SIGWINCH", "SIGIO", "SIGPWR", "SIGSYS"]

/-- The signals that end no process unless it asks for them: none at all, SIGCHLD, SIGCONT,
SIGURG and SIGWINCH.
-/
def harmlessSignals : List Nat := [0, 17, 18, 23, 28]

/-- How a process ends whose last act is to send itself a signal. -/
def ofOwnSignal (signal : Nat) : Ending :=
  if harmlessSignals.contains signal then .exited 0 else .killed signal

/-- Whether the process has done what it was started for. -/
def succeeded : Ending → Bool
  | .exited code => code == 0
  | .killed _ => false

/-- The text of an ending. -/
def text : Ending → String
  | .exited code => s!"exit status: {code}"
  | .killed signal =>
    match signal with
    | 0 => "signal: 0"
    | index + 1 =>
      match signalNames[index]? with
      | some name => s!"signal: {signal} ({name})"
      | none => s!"signal: {signal}"

end Ending

-----------------------------------------------------------------------------------------
-- Starting programs
-----------------------------------------------------------------------------------------

/-- A program with its arguments, and the directory that it starts in. -/
structure Launch where
  program : Path
  directory : Path
  arguments : List Bytes
deriving DecidableEq

/-- Why a program does not start. -/
inductive StartError where
  | nulByte
  | unreachable (reason : FileError)
  | denied
deriving DecidableEq

/-- What is said of a program that does not start. -/
def StartError.message : StartError → String
  | .nulByte => "nul byte found in provided data"
  | .unreachable reason => reason.message
  | .denied => "Permission denied (os error 13)"

/-- A file that may be executed, and what keeps it from starting if something does. -/
structure Executable where
  place : Place
  obstacle : Option FileError := none

/-- The directories that programs are looked up in, and the files that may be executed. -/
structure Toolbox where
  searchPath : List Path := []
  executables : List Executable := []

/-- What is said of a program that is not found. -/
def Toolbox.notFound : String := "cannot find binary path"

/-- The path that relative paths start from. -/
def FileTree.homePath (tree : FileTree) : Path :=
  Path.ofComponents (.root :: tree.home.map .name)

namespace Toolbox

/-- The file that a path leads to, if it may be executed. -/
def executable? (toolbox : Toolbox) (tree : FileTree) (path : Path) : Option Executable :=
  match tree.locate true path with
  | .ok ⟨place, some (.file _)⟩ =>
    toolbox.executables.find? fun executable => executable.place == place
  | _ => none

/-- Where a name may lead: a name of several components is a path from the home directory,
and any other one stands in the directories of the search path.
-/
def candidates (toolbox : Toolbox) (tree : FileTree) (name : String) : List Path :=
  let path := Path.ofText name
  if 1 < path.components.length then [tree.homePath.join path]
  else toolbox.searchPath.map (·.join path)

/-- The program of a name. -/
def locate (toolbox : Toolbox) (tree : FileTree) (name : String) : Option Path :=
  (toolbox.candidates tree name).find? fun path => (toolbox.executable? tree path).isSome

/-- Whether a program can be started: its texts hold no NUL, its directory is one, and it is
a file that may be executed and has all it needs.
-/
def start (toolbox : Toolbox) (tree : FileTree) (launch : Launch) : Except StartError Unit :=
  if (launch.program.bytes :: launch.directory.bytes :: launch.arguments).any (·.contains 0) then
    .error .nulByte
  else
    match tree.locate true launch.directory with
    | .error reason => .error (.unreachable reason)
    | .ok ⟨_, none⟩ => .error (.unreachable .missing)
    | .ok ⟨_, some .directory⟩ =>
      match tree.locate true launch.program with
      | .error reason => .error (.unreachable reason)
      | .ok ⟨_, none⟩ => .error (.unreachable .missing)
      | .ok ⟨_, some _⟩ =>
        match toolbox.executable? tree launch.program with
        | none => .error .denied
        | some ⟨_, some reason⟩ => .error (.unreachable reason)
        | some ⟨_, none⟩ => .ok ()
    | .ok ⟨_, some _⟩ => .error (.unreachable .notDirectory)

end Toolbox

end RouteDesk
