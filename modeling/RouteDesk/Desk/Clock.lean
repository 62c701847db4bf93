import RouteDesk.Desk.Basic
import RouteDesk.Creation.World
import RouteDesk.Inventory.Live

/-! A desk with a clock: processes change the tree and end when their time has come, and the
workspace watches what they do.
-/

namespace RouteDesk

/-- What a process does. Times are in milliseconds from its start. -/
structure Conduct where
  changes : List (Nat × FileChange) := []
  /-- What it writes to its standard error. -/
  errors : Bytes := []
  ending : Ending := .exited 0
  /-- When it ends, if it ever does. -/
  duration : Option Nat := some 1

/-- What programs do when they are started in a tree. -/
abbrev Conducts := FileTree → Launch → Conduct

/-- Something that is going to happen. -/
inductive Prospect where
  | change (change : FileChange)
  | ending (process : Nat) (ending : Ending) (errors : Bytes)

/-- A desk with its workspace, and what is going to happen and when. -/
structure ClockedDesk where
  tree : FileTree
  desk : Desk
  workspace : ProjectFiles
  agenda : List (Nat × Prospect) := []

namespace ClockedDesk

/-- What a process that starts now is going to do. It takes a millisecond at least. -/
def prospects (conduct : Conduct) (now process : Nat) : List (Nat × Prospect) :=
  let changes := conduct.changes.map fun (delay, change) =>
    (now + max 1 delay, Prospect.change change)
  let ending := conduct.duration.map fun duration =>
    (now + max 1 duration, Prospect.ending process conduct.ending conduct.errors)
  changes ++ ending.toList

/-- Takes the desk over and puts what its new processes are going to do on the agenda. -/
def adopt (conducts : Conducts) (now : Nat) (state : ClockedDesk) (desk : Desk)
    : ClockedDesk :=
  let known := state.desk.launches.length
  let fresh := (desk.launches.drop known).zipIdx known
  let added := fresh.flatMap fun (launch, process) =>
    prospects (conducts state.tree launch) now process
  { state with desk, agenda := state.agenda ++ added }

/-- Changes the tree and tells the workspace. -/
def alter (state : ClockedDesk) (change : FileChange) : ClockedDesk × Log :=
  let (workspace, log) := state.workspace.follow state.tree change
  ({ state with tree := (change.apply state.tree).1, workspace }, log)

/-- Lets something happen. -/
def happen (conducts : Conducts) (now : Nat) (state : ClockedDesk) : Prospect → ClockedDesk × Log
  | .change change => state.alter change
  | .ending process ending errors =>
    let (desk, log) := state.desk.ended state.tree process ending errors
    (state.adopt conducts now desk, log)

/-- Lets everything happen whose time has come. -/
def advance (conducts : Conducts) (now : Nat) (state : ClockedDesk) : ClockedDesk × Log :=
  let due := state.agenda.filter (·.1 ≤ now)
  let waiting := { state with agenda := state.agenda.filter (now < ·.1) }
  due.foldl
    (fun (reached : ClockedDesk × Log) item =>
      let (next, log) := reached.1.happen conducts now item.2
      (next, reached.2 ++ log))
    (waiting, [])

/-- The next moment at which something happens. -/
def next? (state : ClockedDesk) : Option Nat :=
  (state.agenda.map Prod.fst).min?

/-- Starts the generator. -/
def dispatch (conducts : Conducts) (now : Nat) (artifact : Artifact) (state : ClockedDesk)
    : ClockedDesk × Except GeneratorError Unit × Log :=
  let (desk, outcome, log) := state.desk.dispatch state.tree artifact
  (state.adopt conducts now desk, outcome, log)

/-- The files of a name in the workspace. -/
def search (name : String) (_now : Nat) (state : ClockedDesk)
    : ClockedDesk × Except String (List Path) :=
  match state.workspace.find state.tree name with
  | .ok found => (state, .ok found)
  | .error reason => (state, .error reason.message)

/-- The desk as a world for requests. -/
def world (conducts : Conducts) : World ClockedDesk where
  tree := ClockedDesk.tree
  dispatch := dispatch conducts
  searchTime := fun _ => 0
  search := search
  focused := fun _ state => state.desk.active
  next? := next?
  advance := advance conducts

/-- Lets things happen, up to so many moments. -/
def settle (conducts : Conducts) : Nat → ClockedDesk → ClockedDesk × Log
  | 0, state => (state, [])
  | moments + 1, state =>
    match state.next? with
    | none => (state, [])
    | some moment =>
      let (next, log) := state.advance conducts moment
      let (last, more) := settle conducts moments next
      (last, log ++ more)

/-- The tree when every change is made that running processes are still going to make. -/
def lastTree (state : ClockedDesk) : FileTree :=
  state.agenda.foldl
    (fun tree item =>
      match item.2 with
      | .change change => (change.apply tree).1
      | .ending _ _ _ => tree)
    state.tree

end ClockedDesk

end RouteDesk
