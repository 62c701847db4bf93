import RouteDesk.Text.Bytes
import RouteDesk.Text.Pieces

/-! Paths as byte strings, and the components they are read as. Empty pieces and inner dots
vanish, a leading slash is the root, and two paths agree when their components do.
-/

namespace RouteDesk

/-- A path as it is written. -/
structure Path where
  bytes : Bytes
deriving DecidableEq, Inhabited

/-- What a path is read as, from left to right. -/
inductive Component where
  | root
  | here
  | up
  | name (bytes : Bytes)
deriving DecidableEq

namespace Path

/-- The separator of path components. -/
def slash : UInt8 := 0x2F

/-- The dot that sets off an extension, and that names directories relatively. -/
def dot : UInt8 := 0x2E

/-- The path with this text. -/
def ofText (text : String) : Path :=
  ⟨Bytes.ofText text⟩

/-- The path for messages, with U+FFFD in place of whatever is not text. -/
def display (path : Path) : String :=
  Bytes.toTextLossy path.bytes

/-- Whether the path starts at the root. -/
def isAbsolute (path : Path) : Bool :=
  path.bytes.head? == some slash

/-- What a piece after the first one stands for: empty ones and dots stand for nothing. -/
def component? (piece : Bytes) : Option Component :=
  if piece = [] ∨ piece = [dot] then none
  else if piece = [dot, dot] then some .up
  else some (.name piece)

/-- The components of a path. A dot counts only at the start of a relative path. -/
def components (path : Path) : List Component :=
  let (first, later) := Text.pieces slash path.bytes
  let start :=
    if path.isAbsolute then [.root]
    else if first = [dot] then [.here]
    else (component? first).toList
  start ++ later.filterMap component?

/-- The path as it is written with no more than its components. -/
def ofComponents : List Component → Path
  | .root :: rest => ⟨slash :: written rest⟩
  | components => ⟨written components⟩
where
  /-- The components with a slash between neighbours. -/
  written (components : List Component) : Bytes :=
    List.intercalate [slash] (components.map piece)
  /-- A component as a piece. -/
  piece : Component → Bytes
    | .root => []
    | .here => [dot]
    | .up => [dot, dot]
    | .name bytes => bytes

/-- The last component, if it is a name. -/
def fileName? (path : Path) : Option Bytes :=
  match path.components.getLast? with
  | some (.name bytes) => some bytes
  | _ => none

/-- The path without its last component; the root and the empty path have no parent. -/
def parent? (path : Path) : Option Path :=
  match path.components.getLast? with
  | none | some .root => none
  | some _ => some (ofComponents path.components.dropLast)

/-- The path and its parents, from the longest to the shortest. -/
def ancestors (path : Path) : List Path :=
  go path.components.length path
where
  /-- No more than `limit` parents of the path. -/
  go : Nat → Path → List Path
    | 0, path => [path]
    | limit + 1, path =>
      match path.parent? with
      | none => [path]
      | some parent => path :: go limit parent

/-- What stands after the last dot of a file name; a dot in front sets off no extension. -/
def extension? (path : Path) : Option Bytes :=
  match path.fileName? with
  | none => none
  | some name =>
    let after := (name.reverse.takeWhile (· != dot)).reverse
    let stem := name.length - after.length - 1
    if after.length < name.length ∧ 0 < stem then some after else none

/-- The path of `right` as seen from `left`: an absolute one stays, and no slash is added
after an empty path or one that ends in a slash.
-/
def join (left right : Path) : Path :=
  if right.isAbsolute then right
  else if left.bytes = [] ∨ left.bytes.getLast? = some slash then ⟨left.bytes ++ right.bytes⟩
  else ⟨left.bytes ++ slash :: right.bytes⟩

/-- The path of a name inside a directory. -/
def child (directory : Path) (name : String) : Path :=
  directory.join (ofText name)

/-- Whether two paths have the same components. -/
def agrees (first second : Path) : Bool :=
  first.components == second.components

/-- Whether the components of `suffix` are the last ones of the path. -/
def endsWith (path suffix : Path) : Bool :=
  suffix.components.isSuffixOf path.components

/-- Whether the components of `start` are the first ones of the path. -/
def startsWith (path start : Path) : Bool :=
  start.components.isPrefixOf path.components

end Path

end RouteDesk
