import RouteDesk.Wildcard.Search

/-! Looking for files on the disk: files of one name directly under the root, and all files
below it. Names and the root are taken literally, whatever characters they hold.
-/

namespace RouteDesk

/-- Why a workspace cannot be searched. -/
inductive SearchError where
  | rootNotText (root : Path)
  | malformedPattern (reason : Wildcard.PatternFault)
deriving DecidableEq

/-- What is said of a workspace that cannot be searched. -/
def SearchError.message : SearchError → String
  | .rootNotText root => s!"workspace path is not valid UTF-8: {root.display}"
  | .malformedPattern reason => s!"Pattern syntax error: {reason.message}"

namespace Inventory

/-- The pattern for exactly the root. -/
def literalRoot (root : Path) : Except SearchError (List Char) :=
  match Bytes.toText? root.bytes with
  | some text => .ok (Wildcard.Pattern.escape text.toList)
  | none => .error (.rootNotText root)

/-- The regular files whose paths fit a pattern, with links followed. -/
def filesFitting (tree : FileTree) (pattern : List Char) : Except SearchError (List Path) :=
  match Wildcard.search tree pattern with
  | .ok found => .ok (found.filter tree.isFile)
  | .error reason => .error (.malformedPattern reason)

/-- The files of a name directly under the root. -/
def find (tree : FileTree) (root : Path) (name : String) : Except SearchError (List Path) :=
  match literalRoot root with
  | .ok pattern => filesFitting tree (pattern ++ '/' :: Wildcard.Pattern.escape name.toList)
  | .error reason => .error reason

/-- All files below the root. -/
def all (tree : FileTree) (root : Path) : Except SearchError (List Path) :=
  match literalRoot root with
  | .ok pattern => filesFitting tree (pattern ++ ['/', '*', '*', '/', '*'])
  | .error reason => .error reason

end Inventory

end RouteDesk
