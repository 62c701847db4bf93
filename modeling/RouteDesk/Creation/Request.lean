import RouteDesk.Duration
import RouteDesk.Dialogue
import RouteDesk.Waiting

/-! One request for a new route, as a machine that asks its surroundings for one thing at a
time: an answer of the user, the start of the generator, the files of the workspace, the
focused document, or a pause. Every reply moves it on, until it settles.
-/

namespace RouteDesk

/-- Why the generator was not started. -/
inductive GeneratorError where
  | toolNotFound (tool : String)
  | notStarted (command : String) (reason : String)
deriving DecidableEq

namespace GeneratorError

/-- What is said of a generator that was not started. -/
def message : GeneratorError → String
  | .toolNotFound tool =>
    s!"`{tool}` was not found on PATH; it is required to create Camel routes"
  | .notStarted command _ => s!"failed to start `{command}`"

/-- What is said of a generator that was not started, and why. -/
def chain (error : GeneratorError) : String :=
  match error with
  | .toolNotFound _ => s!"{error.message}: cannot find binary path"
  | .notStarted _ reason => s!"{error.message}: {reason}"

end GeneratorError

/-- What a request waits for: its file, and then the focus of the editor. -/
inductive Awaited where
  | file
  | focus
deriving DecidableEq

/-- What is awaited, for messages. -/
def Awaited.label : Awaited → String
  | .file => "file creation"
  | .focus => "editor activation"

/-- Why no route was created. -/
inductive CreationError where
  | badName (reason : NameError)
  | generator (reason : GeneratorError)
  | tooLate (awaited : Awaited) (fileName : String) (after : Duration)
  | noName
deriving DecidableEq

namespace CreationError

/-- What is said of a failure. -/
def message : CreationError → String
  | .badName reason => reason.message
  | .generator reason => reason.message
  | .tooLate awaited fileName after =>
    s!"{awaited.label} timed out after {after.text} waiting for `{fileName}`"
  | .noName => "route creation was cancelled"

/-- What is said of a failure, and why. -/
def chain : CreationError → String
  | .generator reason => reason.chain
  | error => error.message

/-- What was awaited in vain. -/
def awaited? : CreationError → Option Awaited
  | .tooLate awaited _ _ => some awaited
  | _ => none

end CreationError

/-- A created route, and where the workspace found its file. -/
structure CreatedRoute where
  artifact : Artifact
  path : Path
deriving DecidableEq

/-- How long each awaited thing is waited for and how often it is checked, in milliseconds. -/
structure Timings where
  fileTime : Nat := 30000
  focusTime : Nat := 5000
  interval : Nat := 500
deriving DecidableEq

/-- What new routes are created with. -/
structure Creator where
  root : Path
  timings : Timings := {}

/-- What is asked for: a route of a given name, or one that the user is asked to name. -/
inductive Job where
  | named (dialect : Dialect) (name : String)
  | unnamed (dialect : Dialect)
deriving DecidableEq

/-- The dialect of the route. -/
def Job.dialect : Job → Dialect
  | .named dialect _ => dialect
  | .unnamed dialect => dialect

/-- What is being watched for, and until when. -/
inductive Watch where
  | file (artifact : Artifact) (deadline : Nat)
  | focus (artifact : Artifact) (found : Path) (deadline : Nat)
deriving DecidableEq

/-- When a watch ends. -/
def Watch.deadline : Watch → Nat
  | .file _ deadline => deadline
  | .focus _ _ deadline => deadline

/-- What a call that holds the turn is waiting for. -/
inductive Phase where
  /-- To be set going. -/
  | ready
  /-- The user's answer. -/
  | asking
  /-- The generator's start. -/
  | dispatching (artifact : Artifact)
  /-- The answer of the workspace or of the editor. -/
  | evaluating (watch : Watch)
  /-- The moment of the next evaluation. -/
  | resting (watch : Watch) (wake : Nat)
  /-- Nothing any more. -/
  | settled (outcome : Except CreationError CreatedRoute)

/-- What the surroundings answer. -/
inductive Reply where
  | go
  | answered (name : Option String)
  | dispatched (outcome : Except GeneratorError Unit)
  | searched (outcome : Except String (List Path))
  | looked (document : Option Path)
  | rested
  | timeUp

/-- What happens between a call and its surroundings. -/
inductive Event where
  | checked (name : String) (verdict : Except NameError Unit)
  | asked
  | dispatching (artifact : Artifact)
  | dispatched (outcome : Except GeneratorError Unit)
  | reported (message : String)
  | searching (fileName : String)
  | searched (outcome : Except String (List Path))
  | looked (document : Option Path)

/-- What a reply brings about. -/
structure Reaction where
  phase : Phase
  events : List Event := []
  log : Log := []

namespace Creator

/-- The question for the name of a route. -/
def question (dialect : Dialect) : String :=
  s!"Name of the new Camel {dialect.label} route (without extension):"

/-- Checks a name and, if it is accepted, has the generator started for it. -/
def offer (creator : Creator) (tree : FileTree) (dialect : Dialect) (name : String)
    : Reaction :=
  let verdict := RouteName.check tree creator.root dialect name
  match verdict with
  | .error reason => ⟨.settled (.error (.badName reason)), [.checked name verdict], []⟩
  | .ok () =>
    let artifact := Artifact.of creator.root dialect name
    ⟨.dispatching artifact, [.checked name verdict, .dispatching artifact],
      [⟨.info, s!"{dialect.commandName}: creating {artifact.fileName}"⟩]⟩

/-- The reply to a search: only a single match ends the watch for the file. -/
def onSearched (creator : Creator) (now : Nat) (artifact : Artifact) (deadline : Nat)
    (outcome : Except String (List Path))
    : Reaction :=
  let rest (line : LogLine) : Reaction :=
    ⟨.resting (.file artifact deadline) (now + waited creator.timings.interval),
      [.searched outcome], [line]⟩
  match outcome with
  | .ok [found] =>
    ⟨.evaluating (.focus artifact found (now + creator.timings.focusTime)),
      [.searched outcome], [⟨.info, s!"{artifact.fileName} created at {found.display}"⟩]⟩
  | .ok found =>
    rest ⟨.debug,
      s!"waiting for '{artifact.fileName}' to be created ({found.length} matches)"⟩
  | .error reason =>
    rest ⟨.warn, s!"workspace query for '{artifact.fileName}' failed: {reason}"⟩

/-- The reply to a look at the editor: a document counts if its path ends in the file name. -/
def onLooked (creator : Creator) (now : Nat) (artifact : Artifact) (found : Path)
    (deadline : Nat) (document : Option Path)
    : Reaction :=
  if document.any fun path => path.endsWith (Path.ofText artifact.fileName) then
    ⟨.settled (.ok ⟨artifact, found⟩), [.looked document],
      [⟨.info, s!"{artifact.fileName} is open"⟩]⟩
  else
    ⟨.resting (.focus artifact found deadline) (now + waited creator.timings.interval),
      [.looked document], []⟩

/-- The end of a watch that has found nothing. -/
def expired (creator : Creator) : Watch → CreationError
  | .file artifact _ =>
    .tooLate .file artifact.fileName (.ofMillis creator.timings.fileTime)
  | .focus artifact _ _ =>
    .tooLate .focus artifact.fileName (.ofMillis creator.timings.focusTime)

/-- How a call moves on when a reply comes; a reply to something else changes nothing. -/
def react (creator : Creator) (tree : FileTree) (now : Nat) (job : Job)
    (phase : Phase) (reply : Reply)
    : Reaction :=
  match phase, reply with
  | .ready, .go =>
    match job with
    | .named dialect name => creator.offer tree dialect name
    | .unnamed _ => ⟨.asking, [.asked], []⟩
  | .asking, .answered none => ⟨.settled (.error .noName), [], []⟩
  | .asking, .answered (some name) => creator.offer tree job.dialect name
  | .dispatching artifact, .dispatched (.ok ()) =>
    ⟨.evaluating (.file artifact (now + creator.timings.fileTime)),
      [.dispatched (.ok ()), .searching artifact.fileName], []⟩
  | .dispatching _, .dispatched (.error reason) =>
    match job with
    | .named _ _ =>
      ⟨.settled (.error (.generator reason)), [.dispatched (.error reason)], []⟩
    | .unnamed _ =>
      ⟨.asking, [.dispatched (.error reason), .reported reason.chain, .asked],
        [⟨.warn, reason.chain⟩]⟩
  | .evaluating (.file artifact deadline), .searched outcome =>
    creator.onSearched now artifact deadline outcome
  | .evaluating (.focus artifact found deadline), .looked document =>
    creator.onLooked now artifact found deadline document
  | .resting (.file artifact deadline) _, .rested =>
    ⟨.evaluating (.file artifact deadline), [.searching artifact.fileName], []⟩
  | .resting (.focus artifact found deadline) _, .rested =>
    ⟨.evaluating (.focus artifact found deadline), [], []⟩
  | .evaluating watch, .timeUp => ⟨.settled (.error (creator.expired watch)), [], []⟩
  | .resting watch _, .timeUp => ⟨.settled (.error (creator.expired watch)), [], []⟩
  | phase, _ => ⟨phase, [], []⟩

end Creator

end RouteDesk
