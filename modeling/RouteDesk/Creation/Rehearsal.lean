import RouteDesk.FileTree.Change
import RouteDesk.Creation.World
import RouteDesk.Inventory.Disk

/-! A scripted world, for trying out how requests fare: when a generated file is found, when
the editor shows it, and what goes wrong on the way.
-/

namespace RouteDesk

/-- What the generator writes to the disk when it is started. -/
inductive Output where
  | nothing
  | artifact
  | file (path : Path)

/-- How one start of the generator goes. Times are in milliseconds from the start; what has
none never comes.
-/
structure Plan where
  failure : Option GeneratorError := none
  output : Output := .nothing
  /-- When the workspace finds the file. -/
  foundAfter : Option Nat := none
  /-- When the editor shows the file, from the moment at which it is found or else from the
  start.
  -/
  shownAfter : Option Nat := none
  /-- What the editor shows in place of the file. -/
  shown : Option Path := none
  /-- How long a search takes. -/
  searchTime : Nat := 0
  /-- How many searches fail. -/
  searchFailures : Nat := 0
  /-- How many more times than once the file is found. -/
  copies : Nat := 0

/-- A generator that was started. -/
structure Started where
  artifact : Artifact
  plan : Plan
  foundAt : Option Nat
  shownAt : Option Nat

/-- A scripted world. -/
structure Rehearsal where
  tree : FileTree
  root : Path
  /-- How the starts to come go; once there are none left, every start does nothing. -/
  plans : List Plan := []
  /-- The generators that were started, the latest first. -/
  started : List Started := []
  /-- The document that the editor shows at first. -/
  focus : Option Path := none
  /-- Whether searches look at the disk and not at the script. -/
  onDisk : Bool := false

namespace Rehearsal

/-- The path of a name below the root, or an absolute path as it is. -/
def located (rehearsal : Rehearsal) (path : Path) : Path :=
  rehearsal.root.join path

/-- The tree after the generator has written its output. -/
def afterOutput (rehearsal : Rehearsal) (artifact : Artifact) : Output → FileTree
  | .nothing => rehearsal.tree
  | .artifact => (rehearsal.tree.writeWithParents artifact.path []).1
  | .file path => (rehearsal.tree.writeWithParents (rehearsal.located path) []).1

/-- Starts the generator as the next plan says. -/
def dispatch (now : Nat) (artifact : Artifact) (rehearsal : Rehearsal)
    : Rehearsal × Except GeneratorError Unit × Log :=
  let plan := rehearsal.plans.headD {}
  let next := { rehearsal with plans := rehearsal.plans.tail }
  match plan.failure with
  | some reason => (next, .error reason, [])
  | none =>
    let foundAt := plan.foundAfter.map (now + ·)
    let shownAt := plan.shownAfter.map (foundAt.getD now + ·)
    ({ next with
        tree := rehearsal.afterOutput artifact plan.output
        started := ⟨artifact, plan, foundAt, shownAt⟩ :: rehearsal.started },
      .ok (), [])

/-- How long a search takes now. -/
def searchTime (rehearsal : Rehearsal) : Nat :=
  if rehearsal.onDisk then 0
  else
    match rehearsal.started with
    | [] => 0
    | latest :: _ => waited latest.plan.searchTime

/-- How many searches the plans let fail from now on. -/
def faults (rehearsal : Rehearsal) : Nat :=
  let plans := rehearsal.plans ++ rehearsal.started.map Started.plan
  plans.foldl (fun sum plan => sum + plan.searchFailures) 0

/-- The scripted matches of a name. -/
def matching (rehearsal : Rehearsal) (fileName : String) (now : Nat) : List Path :=
  rehearsal.started.reverse.flatMap fun started =>
    if started.artifact.fileName = fileName ∧ started.foundAt.any (· ≤ now) then
      List.replicate (started.plan.copies + 1) started.artifact.path
    else []

/-- Searches for the files of a name. -/
def search (fileName : String) (now : Nat) (rehearsal : Rehearsal)
    : Rehearsal × Except String (List Path) :=
  if rehearsal.onDisk then
    match Inventory.find rehearsal.tree rehearsal.root fileName with
    | .ok found => (rehearsal, .ok found)
    | .error reason => (rehearsal, .error reason.message)
  else
    match rehearsal.started with
    | [] => (rehearsal, .ok [])
    | latest :: earlier =>
      match latest.plan.searchFailures with
      | 0 => (rehearsal, .ok (rehearsal.matching fileName now))
      | left + 1 =>
        let spent := { latest with plan := { latest.plan with searchFailures := left } }
        ({ rehearsal with started := spent :: earlier }, .error "index offline")

/-- The document that has the focus: that of the latest start that is shown. -/
def focused (now : Nat) (rehearsal : Rehearsal) : Option Path :=
  match rehearsal.started.find? fun started => started.shownAt.any (· ≤ now) with
  | some started =>
    match started.plan.shown with
    | some path => some (rehearsal.located path)
    | none => some started.artifact.path
  | none => rehearsal.focus.map rehearsal.located

/-- The scripted world as a world for requests. -/
def world : World Rehearsal :=
  { tree := Rehearsal.tree, dispatch, searchTime, search, faults, focused }

end Rehearsal

end RouteDesk
