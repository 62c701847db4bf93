import RouteDesk.Inventory.Disk
import RouteDesk.Log

/-! An index of the files of a workspace. It is kept current by events, each of which is held
against the disk as it is when the event is delivered.
-/

namespace RouteDesk

/-- Something that happened to paths on the disk. -/
inductive DiskEvent where
  | created (paths : List Path)
  | removed (paths : List Path)
  /-- Old names, new names or both. -/
  | renamed (paths : List Path)
deriving DecidableEq

/-- Known files; no two of their paths have the same components. -/
structure Index where
  paths : List Path := []
deriving Inhabited

namespace Index

/-- Whether a path is known, however it is written. -/
def knows (index : Index) (path : Path) : Bool :=
  index.paths.any path.agrees

/-- Adds a path that is not known yet. -/
def insert (index : Index) (path : Path) : Index :=
  if index.knows path then index else ⟨index.paths ++ [path]⟩

/-- Adds paths, one after the other. -/
def extend (index : Index) (paths : List Path) : Index :=
  paths.foldl insert index

/-- Takes up a file, or all files below a directory. -/
def takeUp (tree : FileTree) (index : Index) (path : Path) : Index × Log :=
  if tree.isFile path then (index.insert path, [])
  else if tree.isDirectory path then
    match Inventory.all tree path with
    | .ok files => (index.extend files, [])
    | .error reason =>
      (index, [⟨.warn, s!"failed to index {path.display}: {reason.message}"⟩])
  else (index, [])

/-- Drops a path and everything below it. -/
def dropBelow (index : Index) (path : Path) : Index :=
  ⟨index.paths.filter fun known => !known.startsWith path⟩

/-- Takes up a path that is there, and drops one that is not. -/
def review (tree : FileTree) (index : Index) (path : Path) : Index × Log :=
  if tree.isPresent path then index.takeUp tree path else (index.dropBelow path, [])

/-- Goes through paths with a step for each. -/
def each (step : Index → Path → Index × Log) (index : Index) (paths : List Path)
    : Index × Log :=
  paths.foldl
    (fun (state : Index × Log) path =>
      let (next, log) := step state.1 path
      (next, state.2 ++ log))
    (index, [])

/-- The index after an event. -/
def observe (tree : FileTree) (index : Index) : DiskEvent → Index × Log
  | .created paths => each (takeUp tree) index paths
  | .removed paths => each (fun index path => (index.dropBelow path, [])) index paths
  | .renamed paths => each (review tree) index paths

/-- The known files of a name directly under the root. -/
def find (index : Index) (root : Path) (name : String) : List Path :=
  index.paths.filter fun known =>
    known.components == root.components ++ [.name (Bytes.ofText name)]

end Index

end RouteDesk
