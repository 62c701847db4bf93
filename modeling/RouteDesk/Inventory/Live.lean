import RouteDesk.Inventory.Watcher

/-! Workspaces that watch the disk. The index is filled by a scan, and what a watcher of the
root notices of later changes is reported to it. A project is watched if it can be, and
scanned otherwise.
-/

namespace RouteDesk

/-- Why a workspace cannot be watched. -/
inductive IndexingError where
  | unreachable (reason : FileError)
  | unsearchable (reason : SearchError)
deriving DecidableEq

/-- What is said of a workspace that cannot be watched. -/
def IndexingError.message : IndexingError → String
  | .unreachable reason => s!"failed to watch workspace: {reason.message}"
  | .unsearchable reason => s!"failed to index workspace: {reason.message}"

/-- A workspace with an index of its files, and the watcher that keeps it current. -/
structure LiveWorkspace where
  root : Path
  index : Index
  watcher : Watcher := {}

namespace LiveWorkspace

/-- Starts to watch a root: it has to be there, and is then scanned. -/
def open? (tree : FileTree) (root : Path) : Except IndexingError (LiveWorkspace × Log) :=
  match tree.locate true root with
  | .error reason => .error (.unreachable reason)
  | .ok ⟨_, none⟩ => .error (.unreachable .missing)
  | .ok ⟨_, some _⟩ =>
    match Inventory.all tree root with
    | .error reason => .error (.unsearchable reason)
    | .ok files =>
      .ok (⟨root, Index.extend {} files, .ofRoot tree root⟩,
        [⟨.debug, s!"indexed {files.length} files under {root.display}"⟩])

/-- The files of a name directly under the root. The disk is not looked at. -/
def find (workspace : LiveWorkspace) (name : String) : List Path :=
  workspace.index.find workspace.root name

/-- The workspace after an event. -/
def observe (tree : FileTree) (workspace : LiveWorkspace) (event : DiskEvent)
    : LiveWorkspace × Log :=
  let (index, log) := workspace.index.observe tree event
  ({ workspace with index }, log)

/-- The workspace after some events. -/
def observeAll (tree : FileTree) (workspace : LiveWorkspace) (events : List DiskEvent)
    : LiveWorkspace × Log :=
  events.foldl
    (fun (state : LiveWorkspace × Log) event =>
      let (next, log) := state.1.observe tree event
      (next, state.2 ++ log))
    (workspace, [])

/-- The workspace after a change of a tree, and what is logged of it. -/
def follow (tree : FileTree) (workspace : LiveWorkspace) (change : FileChange)
    : LiveWorkspace × Log :=
  let (events, watcher) := workspace.watcher.notice tree change
  { workspace with watcher }.observeAll (change.apply tree).1 events

end LiveWorkspace

-----------------------------------------------------------------------------------------
-- Workspaces of projects
-----------------------------------------------------------------------------------------

/-- The workspace of a project. -/
inductive ProjectFiles where
  | live (workspace : LiveWorkspace)
  | onDisk (root : Path)

namespace ProjectFiles

/-- Watches a root, or falls back to scanning it. -/
def opened (tree : FileTree) (root : Path) : ProjectFiles × Log :=
  match LiveWorkspace.open? tree root with
  | .ok (workspace, log) => (.live workspace, log)
  | .error reason =>
    (.onDisk root,
      [⟨.warn, s!"{reason.message}; falling back to scanning {root.display}"⟩])

/-- The files of a name directly under the root. -/
def find (tree : FileTree) (name : String)
    : ProjectFiles → Except SearchError (List Path)
  | .live workspace => .ok (workspace.find name)
  | .onDisk root => Inventory.find tree root name

/-- The workspace after a change of a tree, and what is logged of it. -/
def follow (tree : FileTree) (change : FileChange) : ProjectFiles → ProjectFiles × Log
  | .live workspace =>
    let (next, log) := workspace.follow tree change
    (.live next, log)
  | .onDisk root => (.onDisk root, [])

end ProjectFiles

end RouteDesk
