import RouteDesk.Creation.Request
import RouteDesk.Toolbox

/-! The generator and the editor of a workspace, and the processes that they run. A file is
opened once its generation has succeeded, and the active document is the last one that the
editor accepted. Processes may end in any order.
-/

namespace RouteDesk

/-- The generator of route files: a tool that runs the Camel application in the root. -/
structure Generator where
  tool : String := "jbang"
  root : Path
  version : Option String := none
deriving DecidableEq

namespace Generator

/-- The application that writes route files. -/
def application : String := "camel@apache/camel"

/-- The command that generates files, for messages. -/
def command (generator : Generator) : String :=
  s!"{generator.tool} {application} init"

/-- How the tool is started to generate an artifact. -/
def launch (generator : Generator) (program : Path) (artifact : Artifact) : Launch :=
  let version := generator.version.map fun version => s!"-Dcamel.jbang.version={version}"
  { program
    directory := generator.root
    arguments := (version.toList ++ [application, "init", artifact.fileName]).map Bytes.ofText }

end Generator

/-- Why a file was not opened. -/
inductive OpenError where
  | notStarted (reason : StartError)
  | refused (program path : Path) (ending : Ending)
deriving DecidableEq

/-- What is said of a file that was not opened. -/
def OpenError.message : OpenError → String
  | .notStarted reason => reason.message
  | .refused program path ending =>
    s!"`{program.display} {path.display}` exited with {ending.text}"

/-- What a process was started for. -/
inductive Errand where
  | generate (artifact : Artifact)
  /-- To open a file, be it because its generation has succeeded or because of a request. -/
  | show (path : Path) (generated : Bool)
deriving DecidableEq

/-- A generator and an editor, and their processes, which are numbered by their starts. -/
structure Desk where
  toolbox : Toolbox
  generator : Generator
  editor : Path
  active : Option Path := none
  running : List (Nat × Errand) := []
  /-- Every start so far, the first one first. -/
  launches : List Launch := []
  /-- The processes that have ended so far and how, the first one first. -/
  endings : List (Nat × Ending) := []

/-- The editor of a name, and what is logged of it. -/
def Toolbox.editor? (toolbox : Toolbox) (tree : FileTree) (name : String)
    : Option (Path × Log) :=
  (toolbox.locate tree name).map fun program =>
    (program, [⟨.debug, s!"using editor at {program.display}"⟩])

namespace Desk

/-- Starts a program for an errand. -/
def begin (desk : Desk) (tree : FileTree) (errand : Errand) (launch : Launch)
    : Except StartError Desk :=
  match desk.toolbox.start tree launch with
  | .error reason => .error reason
  | .ok () =>
    .ok { desk with
      running := desk.running ++ [(desk.launches.length, errand)]
      launches := desk.launches ++ [launch] }

/-- Starts the generator for an artifact. -/
def dispatch (desk : Desk) (tree : FileTree) (artifact : Artifact)
    : Desk × Except GeneratorError Unit × Log :=
  match desk.toolbox.locate tree desk.generator.tool with
  | none => (desk, .error (.toolNotFound desk.generator.tool), [])
  | some program =>
    match desk.begin tree (.generate artifact) (desk.generator.launch program artifact) with
    | .error reason =>
      (desk, .error (.notStarted desk.generator.command reason.message), [])
    | .ok next =>
      (next, .ok (), [⟨.info,
        s!"started `{desk.generator.command} {artifact.fileName}` for "
          ++ artifact.dialect.commandName⟩])

/-- How the editor is started to open a file. -/
def showing (desk : Desk) (tree : FileTree) (path : Path) : Launch :=
  { program := desk.editor, directory := tree.homePath, arguments := [path.bytes] }

/-- Starts the editor for a file. -/
def present (desk : Desk) (tree : FileTree) (path : Path) (generated : Bool)
    : Except StartError Desk :=
  desk.begin tree (.show path generated) (desk.showing tree path)

/-- What is logged of a generated file that was not opened. -/
def unopened (path : Path) (reason : OpenError) : Log :=
  [⟨.warn, s!"failed to open {path.display}: {reason.message}"⟩]

/-- What the end of an editor process says about the file. -/
def verdict (desk : Desk) (path : Path) (ending : Ending) : Except OpenError Unit :=
  if ending.succeeded then .ok () else .error (.refused desk.editor path ending)

/-- The desk after the end of an errand, whose process wrote `errors` to its standard error.
-/
def concluded (desk : Desk) (tree : FileTree) (ending : Ending) (errors : Bytes)
    : Errand → Desk × Log
  | .generate artifact =>
    if ending.succeeded then
      match desk.present tree artifact.path true with
      | .ok next => (next, [])
      | .error reason => (desk, unopened artifact.path (.notStarted reason))
    else
      (desk, [⟨.warn,
        s!"camel init exited with {ending.text}: {Text.trim (Bytes.toTextLossy errors)}"⟩])
  | .show path generated =>
    match desk.verdict path ending with
    | .ok () => ({ desk with active := some path }, [⟨.info, s!"opened {path.display}"⟩])
    | .error reason => (desk, if generated then unopened path reason else [])

/-- The desk after the end of a process. -/
def ended (desk : Desk) (tree : FileTree) (process : Nat) (ending : Ending) (errors : Bytes)
    : Desk × Log :=
  match desk.running.lookup process with
  | none => (desk, [])
  | some errand =>
    let rest := { desk with
      running := desk.running.filter (·.1 != process)
      endings := desk.endings ++ [(process, ending)] }
    rest.concluded tree ending errors errand

/-- Opens a file in the editor and waits for the end of the process. -/
def openWith (desk : Desk) (tree : FileTree) (path : Path) (ending : Ending)
    : Desk × Except OpenError Unit × Log :=
  match desk.present tree path false with
  | .error reason => (desk, .error (.notStarted reason), [])
  | .ok started =>
    let (next, log) := started.ended tree desk.launches.length ending []
    (next, desk.verdict path ending, log)

end Desk

end RouteDesk
