import RouteDesk.FileTree.Walk

/-! Changes of the tree: writing files, making directories and links, renaming and removing.
Every change answers the tree it leaves behind, or why it failed.
-/

namespace RouteDesk

namespace FileTree

/-- Writes a file, replacing its content if there is one and following links to it. -/
def write (tree : FileTree) (path : Path) (content : Bytes) : Except FileError FileTree :=
  match tree.locateFile path with
  | .error reason => .error reason
  | .ok ⟨_, some .directory⟩ => .error .isDirectory
  | .ok ⟨place, _⟩ => .ok (tree.put place (.file content))

/-- Makes a directory whose parent is there. -/
def makeDirectory (tree : FileTree) (path : Path) : Except FileError FileTree :=
  match tree.locate false path.trimmed with
  | .error reason => .error reason
  | .ok ⟨_, some _⟩ => .error .occupied
  | .ok ⟨place, none⟩ => .ok (tree.put place .directory)

/-- Makes directories in the given order; what is already a directory is left alone. -/
def makeInOrder (tree : FileTree) : List Path → FileTree × Except FileError Unit
  | [] => (tree, .ok ())
  | path :: rest =>
    match tree.makeDirectory path with
    | .ok next => next.makeInOrder rest
    | .error .occupied =>
      if tree.isDirectory path then tree.makeInOrder rest else (tree, .error .occupied)
    | .error reason => (tree, .error reason)

/-- Tries the given paths, each the parent of the one before, until one is a directory or
can be made one; then makes the ones before it. `later` holds those, from the top down.
-/
def makeFrom (tree : FileTree) (later : List Path) : List Path → FileTree × Except FileError Unit
  | [] => tree.makeInOrder later
  | path :: parents =>
    if path.parent?.isNone then tree.makeInOrder later
    else
      match tree.makeDirectory path with
      | .ok next => next.makeInOrder later
      | .error .missing => tree.makeFrom (path :: later) parents
      | .error .occupied =>
        if tree.isDirectory path then tree.makeInOrder later else (tree, .error .occupied)
      | .error reason => (tree, .error reason)

/-- Makes a directory and those of its parents that are missing. Parents made before a
failure stay.
-/
def makeDirectories (tree : FileTree) (path : Path) : FileTree × Except FileError Unit :=
  tree.makeFrom [] path.ancestors

/-- Makes a symbolic link. -/
def makeLink (tree : FileTree) (path target : Path) : Except FileError FileTree :=
  if target.bytes.contains 0 then .error .nulByte
  else if target.bytes = [] then .error .missing
  else
    match tree.locate false path.trimmed with
    | .error reason => .error reason
    | .ok ⟨_, some _⟩ => .error .occupied
    | .ok ⟨place, none⟩ =>
      if path.trimmed = path then .ok (tree.put place (.link target)) else .error .missing

/-- Whether a path ends by staying where it is or going up, so that it names no entry. -/
def namesNoEntry (path : Path) : Bool :=
  match path.trimmed.steps.getLast? with
  | some (.into _) => false
  | _ => true

/-- Renames an entry; a file replaces a file, and a directory an empty directory. Only the
names of directories may end in a slash.
-/
def rename (tree : FileTree) (source target : Path) : Except FileError FileTree :=
  match tree.locate false source.trimmed, tree.locate false target.trimmed with
  | .error reason, _ => .error reason
  | _, .error reason => .error reason
  | .ok ⟨origin, there⟩, .ok ⟨goal, held⟩ =>
    if namesNoEntry source ∨ namesNoEntry target then .error .busy
    else
      match there with
      | none => .error .missing
      | some moved =>
        if moved ≠ .directory ∧ ¬ (source.trimmed = source ∧ target.trimmed = target) then
          .error .notDirectory
        else if origin = goal then .ok tree
        else if origin.isPrefixOf goal then .error .intoItself
        else if goal.isPrefixOf origin then .error .notEmpty
        else
          match moved, held with
          | .directory, some .directory =>
            if tree.names goal = [] then .ok (tree.graft origin goal) else .error .notEmpty
          | .directory, some _ => .error .notDirectory
          | _, some .directory => .error .isDirectory
          | _, _ => .ok (tree.graft origin goal)

/-- Removes a file or a link, or a directory with everything below it. -/
def remove (tree : FileTree) (path : Path) : Except FileError FileTree :=
  match tree.locate false path with
  | .error reason => .error reason
  | .ok ⟨_, none⟩ => .error .missing
  | .ok ⟨place, some _⟩ => .ok (tree.cut place)

/-- Writes a file after making the directories on the way to it. -/
def writeWithParents (tree : FileTree) (path : Path) (content : Bytes)
    : FileTree × Except FileError Unit :=
  let (made, outcome) :=
    match path.parent? with
    | some parent => tree.makeDirectories parent
    | none => (tree, .ok ())
  match outcome with
  | .error reason => (made, .error reason)
  | .ok () =>
    match made.write path content with
    | .ok next => (next, .ok ())
    | .error reason => (made, .error reason)

end FileTree

/-- A change of the tree. -/
inductive FileChange where
  /-- Writes a file after making the directories on the way to it. -/
  | write (path : Path) (content : Bytes)
  | makeDirectories (path : Path)
  | link (path target : Path)
  | rename (source target : Path)
  | remove (path : Path)
deriving DecidableEq

namespace FileChange

/-- The tree that the change leaves behind, and whether the change succeeded. -/
def apply (tree : FileTree) : FileChange → FileTree × Except FileError Unit
  | .write path content => tree.writeWithParents path content
  | .makeDirectories path => tree.makeDirectories path
  | .link path target => whole (tree.makeLink path target)
  | .rename source target => whole (tree.rename source target)
  | .remove path => whole (tree.remove path)
where
  /-- A change that happens as a whole or not at all. -/
  whole : Except FileError FileTree → FileTree × Except FileError Unit
    | .ok next => (next, .ok ())
    | .error reason => (tree, .error reason)

end FileChange

end RouteDesk
