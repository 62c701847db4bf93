import RouteDesk.FileTree.Change
import RouteDesk.Inventory.Index

/-! What is noticed of changes of the tree. A watcher of a root watches every directory below
it, those behind links included, and notices what is made, removed or renamed in them. What
comes from a directory that is not watched looks newly made, and directories that are made
later are watched from then on, but not what new links lead to.
-/

namespace RouteDesk

/-- A watcher of directories. -/
structure Watcher where
  /-- The watched directories and the paths that they are known by, the latest one first. -/
  watched : List (Place × Path) := []
  /-- The root itself, whose removal and renaming is noticed too. -/
  root : Option (Place × Path) := none

namespace FileTree

/-- The directories at and below a path, down to so many levels. Links to directories are
entered, except back to a directory that is on the way.
-/
def directoriesFrom (tree : FileTree) : Nat → List Place → Path → List (Place × Path)
  | 0, _, _ => []
  | levels + 1, way, path =>
    match tree.locate true path with
    | .ok ⟨place, some .directory⟩ =>
      let below := (tree.names place).flatMap fun name =>
        let next := path.join ⟨name⟩
        match tree.entry? (place ++ [name]), tree.locate true next with
        | some (.link _), .ok spot =>
          if spot.place ∈ place :: way then []
          else tree.directoriesFrom levels (place :: way) next
        | _, _ => tree.directoriesFrom levels (place :: way) next
      (place, path) :: below
    | _ => []

/-- The directories at and below a path, through links. Every level makes a path longer, and
the length of paths is limited.
-/
def directories (tree : FileTree) (path : Path) : List (Place × Path) :=
  tree.directoriesFrom pathLimit [] path

/-- The new places that stand directly in what was there before. -/
def newPlaces (before after : FileTree) : List Place :=
  (after.entries.map Prod.fst).filter fun place =>
    (before.entry? place).isNone && (before.entry? place.dropLast).isSome

/-- The places at and below one. -/
def placesFrom (tree : FileTree) (place : Place) : List Place :=
  (tree.entries.map Prod.fst).filter place.isPrefixOf

end FileTree

namespace Watcher

/-- The watcher that also watches the directories at and below a path. -/
def extend (tree : FileTree) (watcher : Watcher) (path : Path) : Watcher :=
  { watcher with watched := (tree.directories path).reverse ++ watcher.watched }

/-- The watcher of a root that is there. -/
def ofRoot (tree : FileTree) (root : Path) : Watcher :=
  match tree.locate true root with
  | .ok ⟨place, some _⟩ => extend tree { root := some (place, root) } root
  | _ => {}

/-- How the watcher names a place, if it notices what happens to it. -/
def name? (watcher : Watcher) (place : Place) : Option Path :=
  match watcher.root.filter (·.1 = place) with
  | some top => some top.2
  | none =>
    match place.getLast?, watcher.watched.lookup place.dropLast with
    | some name, some directory => some (directory.join ⟨name⟩)
    | _, _ => none

/-- The watcher without the directories that it knows by a path or by one below it. -/
def release (watcher : Watcher) (path : Path) : Watcher :=
  let lost := (watcher.watched.filter (·.2.startsWith path)).map Prod.fst
  { watcher with watched := watcher.watched.filter fun item => item.1 ∉ lost }

/-- The watcher when nothing is left at and below a place. -/
def without (watcher : Watcher) (place : Place) : Watcher :=
  { watched := watcher.watched.filter fun item => !place.isPrefixOf item.1
    root := watcher.root.filter fun item => !place.isPrefixOf item.1 }

/-- The watcher when everything at and below one place has moved to another. -/
def moved (watcher : Watcher) (source target : Place) : Watcher :=
  let move (item : Place × Path) : Place × Path :=
    if source.isPrefixOf item.1 then (target ++ item.1.drop source.length, item.2) else item
  let rest := watcher.without target
  { watched := rest.watched.map move, root := rest.root.map move }

/-- The watcher after the directory at a place has been made or has come in. -/
def entered (tree : FileTree) (watcher : Watcher) (place : Place) : Watcher :=
  match tree.entry? place, watcher.name? place with
  | some .directory, some path => watcher.extend tree path
  | _, _ => watcher

/-- What is noticed of a renaming, and the watcher after it. -/
def onRenamed (watcher : Watcher) (after : FileTree) (source target : Place)
    : List DiskEvent × Watcher :=
  let old := watcher.name? source
  let new := watcher.name? target
  let events : List DiskEvent :=
    match old, new with
    | none, none => []
    | none, some path => [.created [path]]
    | some path, none => [.renamed [path]]
    | some before, some now => [.renamed [before, now]]
  let left :=
    match old with
    | some path => if watcher.root.map Prod.fst = some source then watcher else watcher.release path
    | none => watcher
  (events, (left.moved source target).entered after target)

/-- What is noticed of a removal with everything below it, and the watcher after it. -/
def onRemoved (watcher : Watcher) (before : FileTree) (place : Place)
    : List DiskEvent × Watcher :=
  let names := (before.placesFrom place).filterMap watcher.name?
  let left :=
    match watcher.name? place with
    | some path => watcher.release path
    | none => watcher
  ([.removed names], left.without place)

/-- What is noticed of new places, and the watcher after it. -/
def onMade (watcher : Watcher) (after : FileTree) (places : List Place)
    : List DiskEvent × Watcher :=
  ([.created (places.filterMap watcher.name?)], places.foldl (entered after) watcher)

end Watcher

/-- The place of a path, with a link at its end not followed. -/
def FileTree.placeOf? (tree : FileTree) (path : Path) : Option Place :=
  match tree.locate false path with
  | .ok spot => some spot.place
  | .error _ => none

/-- What a watcher notices of a change, and the watcher after it. Writing to a file that was
there and changes that fail without effect are not noticed.
-/
def Watcher.notice (watcher : Watcher) (tree : FileTree) (change : FileChange)
    : List DiskEvent × Watcher :=
  let (after, outcome) := change.apply tree
  match change, outcome with
  | .rename source target, .ok () =>
    match tree.placeOf? source.trimmed, tree.placeOf? target.trimmed with
    | some old, some new =>
      if old = new then ([], watcher) else watcher.onRenamed after old new
    | _, _ => ([], watcher)
  | .remove path, .ok () =>
    match tree.placeOf? path with
    | some place => watcher.onRemoved tree place
    | none => ([], watcher)
  | .rename _ _, .error _ | .remove _, .error _ => ([], watcher)
  | _, _ => watcher.onMade after (tree.newPlaces after)

end RouteDesk
