import RouteDesk.Path

/-! A tree of directories, files and symbolic links, as a finite map from places to entries.
A place is the list of names that leads to it from the top; the top itself is always a
directory.
-/

namespace RouteDesk

/-- The names that lead to an entry from the top of the tree. -/
abbrev Place := List Bytes

/-- What the tree holds at a place. -/
inductive Entry where
  | file (content : Bytes)
  | directory
  | link (target : Path)
deriving DecidableEq, Inhabited

/-- Why an operation on the tree fails. -/
inductive FileError where
  | missing
  | occupied
  | notDirectory
  | isDirectory
  | notEmpty
  | intoItself
  | busy
  | nameTooLong
  | linkLoop
  | nulByte
  | malformedText
deriving DecidableEq

/-- The text that a failure is reported with. -/
def FileError.message : FileError → String
  | .missing => "No such file or directory (os error 2)"
  | .occupied => "File exists (os error 17)"
  | .notDirectory => "Not a directory (os error 20)"
  | .isDirectory => "Is a directory (os error 21)"
  | .notEmpty => "Directory not empty (os error 39)"
  | .intoItself => "Invalid argument (os error 22)"
  | .busy => "Device or resource busy (os error 16)"
  | .nameTooLong => "File name too long (os error 36)"
  | .linkLoop => "Too many levels of symbolic links (os error 40)"
  | .nulByte => "file name contained an unexpected NUL byte"
  | .malformedText => "stream did not contain valid UTF-8"

/-- The entries below the top, and the directory that relative paths start from. -/
structure FileTree where
  entries : List (Place × Entry) := []
  home : Place := []
deriving Inhabited

namespace FileTree

/-- What is at a place. -/
def entry? (tree : FileTree) (place : Place) : Option Entry :=
  if place = [] then some .directory else tree.entries.lookup place

/-- The tree with this entry at a place, and all other places as before. -/
def put (tree : FileTree) (place : Place) (entry : Entry) : FileTree :=
  { tree with entries := (place, entry) :: tree.entries.filter (·.1 != place) }

/-- The tree without a place and everything below it. -/
def cut (tree : FileTree) (place : Place) : FileTree :=
  { tree with entries := tree.entries.filter fun item => !place.isPrefixOf item.1 }

/-- The tree with everything at and below one place moved to another. -/
def graft (tree : FileTree) (source target : Place) : FileTree :=
  let moved := tree.entries.filterMap fun (place, entry) =>
    if source.isPrefixOf place then some (target ++ place.drop source.length, entry) else none
  let rest := (tree.cut source).cut target
  { rest with entries := moved ++ rest.entries }

/-- The names in a directory. -/
def names (tree : FileTree) (place : Place) : List Bytes :=
  tree.entries.filterMap fun item =>
    match item.1.getLast? with
    | some name => if item.1 = place ++ [name] then some name else none
    | none => none

end FileTree

end RouteDesk
