import RouteDesk.FileTree.Change

/-! What every change does to single places of the tree: it puts entries where walks end, and cuts
or moves what stands there. A property that this preserves is preserved by every change, whether it
succeeds or stops half way.
-/

namespace RouteDesk.FileTree

/-- A way to read the end of a path that changes use. -/
def IsReading (reading : Path → List Step) : Prop :=
  reading = Path.steps ∨ reading = Path.stepsToFile

/-- A property of trees that changes at single places preserve. -/
structure Durable (holds : FileTree → Prop) : Prop where
  /-- Something else than a directory, or nothing, is replaced where a walk ends. -/
  put {tree : FileTree} {follow : Bool} {reading : Path → List Step} {path : Path} {spot : Spot}
    (before : holds tree) (kind : IsReading reading)
    (reached : tree.locateBy follow reading path = .ok spot)
    (replaced : spot.entry ≠ some .directory) (entry : Entry)
    : holds (tree.put spot.place entry)
  /-- Whatever is at and below a place is removed. -/
  cut {tree : FileTree} (before : holds tree) (place : Place) : holds (tree.cut place)
  /-- Whatever is at and below the end of a walk is moved to the end of another. -/
  graft {tree : FileTree} {source target : Path} {origin goal : Spot} (before : holds tree)
    (from' : tree.locate false source = .ok origin) (to' : tree.locate false target = .ok goal)
    (apart : ¬ origin.place <+: goal.place) (lower : ¬ goal.place <+: origin.place)
    : holds (tree.graft origin.place goal.place)

namespace Durable

variable {holds : FileTree → Prop} {tree next : FileTree}

theorem write (durable : Durable holds) (before : holds tree) {path : Path} {content : Bytes}
    (written : tree.write path content = .ok next)
    : holds next := by
  unfold FileTree.write at written
  split at written
  case h_1 => cases written
  case h_2 => cases written
  case h_3 place entry notDirectory reached =>
    obtain rfl := Except.ok.inj written
    exact durable.put before (.inr rfl) reached (fun same => notDirectory (same ▸ rfl)) _

theorem makeDirectory (durable : Durable holds) (before : holds tree) {path : Path}
    (made : tree.makeDirectory path = .ok next)
    : holds next := by
  unfold FileTree.makeDirectory at made
  split at made
  case h_1 => cases made
  case h_2 => cases made
  case h_3 place reached =>
    obtain rfl := Except.ok.inj made
    exact durable.put before (.inl rfl) reached (by simp) _

theorem makeInOrder (durable : Durable holds) (before : holds tree) (paths : List Path)
    : holds (tree.makeInOrder paths).1 := by
  induction paths generalizing tree with
  | nil => exact before
  | cons path rest ih =>
      unfold FileTree.makeInOrder
      split
      case h_1 next made => exact ih (durable.makeDirectory before made)
      case h_2 =>
        split
        case isTrue => exact ih before
        case isFalse => exact before
      case h_3 => exact before

theorem makeFrom (durable : Durable holds) (before : holds tree) (later paths : List Path)
    : holds (tree.makeFrom later paths).1 := by
  induction paths generalizing later with
  | nil => exact durable.makeInOrder before later
  | cons path parents ih =>
      unfold FileTree.makeFrom
      split
      case isTrue => exact durable.makeInOrder before later
      case isFalse =>
        split
        case h_1 next made => exact durable.makeInOrder (durable.makeDirectory before made) later
        case h_2 => exact ih (path :: later)
        case h_3 =>
          split
          case isTrue => exact durable.makeInOrder before later
          case isFalse => exact before
        case h_4 => exact before

theorem makeDirectories (durable : Durable holds) (before : holds tree) (path : Path)
    : holds (tree.makeDirectories path).1 :=
  durable.makeFrom before [] path.ancestors

/-- The directories above a path can be made before it is written. -/
theorem withParents (durable : Durable holds) (before : holds tree) (path : Path)
    : holds (match path.parent? with
        | some parent => tree.makeDirectories parent
        | none => (tree, .ok ())).1 := by
  split
  case h_1 parent _ => exact durable.makeDirectories before parent
  case h_2 => exact before

theorem writeWithParents (durable : Durable holds) (before : holds tree) (path : Path)
    (content : Bytes)
    : holds (tree.writeWithParents path content).1 := by
  have made := durable.withParents before path
  unfold FileTree.writeWithParents
  dsimp only
  split
  case h_1 => exact made
  case h_2 =>
    split
    case h_1 next written => exact durable.write made written
    case h_2 => exact made

theorem makeLink (durable : Durable holds) (before : holds tree) {path target : Path}
    (made : tree.makeLink path target = .ok next)
    : holds next := by
  unfold FileTree.makeLink at made
  split at made
  case isTrue => cases made
  case isFalse =>
    split at made
    case isTrue => cases made
    case isFalse =>
      split at made
      case h_1 => cases made
      case h_2 => cases made
      case h_3 place reached =>
        split at made
        case isTrue =>
          obtain rfl := Except.ok.inj made
          exact durable.put before (.inl rfl) reached (by simp) _
        case isFalse => cases made

theorem rename (durable : Durable holds) (before : holds tree) {source target : Path}
    (renamed : tree.rename source target = .ok next)
    : holds next := by
  unfold FileTree.rename at renamed
  split at renamed
  case h_1 => cases renamed
  case h_2 => cases renamed
  case h_3 origin there goal held from' to' =>
    split at renamed
    case isTrue => cases renamed
    case isFalse =>
      split at renamed
      case h_1 => cases renamed
      case h_2 moved =>
        split at renamed
        case isTrue => cases renamed
        case isFalse =>
          split at renamed
          case isTrue => exact Except.ok.inj renamed ▸ before
          case isFalse =>
            split at renamed
            case isTrue => cases renamed
            case isFalse apart =>
              split at renamed
              case isTrue => cases renamed
              case isFalse lower =>
                have result := durable.graft before from' to' (by simpa using apart)
                  (by simpa using lower)
                split at renamed
                case h_1 =>
                  split at renamed
                  case isTrue => exact Except.ok.inj renamed ▸ result
                  case isFalse => cases renamed
                case h_2 => cases renamed
                case h_3 => cases renamed
                case h_4 => exact Except.ok.inj renamed ▸ result

theorem remove (durable : Durable holds) (before : holds tree) {path : Path}
    (removed : tree.remove path = .ok next)
    : holds next := by
  unfold FileTree.remove at removed
  split at removed
  case h_1 => cases removed
  case h_2 => cases removed
  case h_3 =>
    obtain rfl := Except.ok.inj removed
    exact durable.cut before _

/-- Every change preserves it. -/
theorem apply (durable : Durable holds) (before : holds tree) (change : FileChange)
    : holds (change.apply tree).1 := by
  have whole (outcome : Except FileError FileTree)
      (kept : ∀ next, outcome = .ok next → holds next)
      : holds (FileChange.apply.whole tree outcome).1 := by
    cases outcome with
    | ok next => exact kept next rfl
    | error reason => exact before
  cases change with
  | write path content => exact durable.writeWithParents before path content
  | makeDirectories path => exact durable.makeDirectories before path
  | link path target => exact whole _ fun _ made => durable.makeLink before made
  | rename source target => exact whole _ fun _ renamed => durable.rename before renamed
  | remove path => exact whole _ fun _ removed => durable.remove before removed

end Durable

end RouteDesk.FileTree
