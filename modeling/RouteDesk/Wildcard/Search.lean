import RouteDesk.FileTree.Walk
import RouteDesk.Wildcard.Pattern

/-! Finding the paths in a tree that fit a pattern, one component after the other. A component
without wildcards is looked up; any other one is held against the names in a directory.
-/

namespace RouteDesk.Wildcard

/-- The path of relative patterns. -/
def origin : Path := Path.ofText "."

/-- The path of a name in a directory, which is left out if it is the origin. -/
def within (directory : Path) (name : Bytes) : Path :=
  if directory = origin then ⟨name⟩ else directory.join ⟨name⟩

/-- The paths in a directory; there are none in anything else. -/
def children (tree : FileTree) (path : Path) : List Path :=
  match tree.locate true path with
  | .ok ⟨place, some .directory⟩ => (tree.names place).map (within path)
  | _ => []

/-- The paths below a directory, down to so many levels. Links to directories are entered. -/
def descendants (tree : FileTree) : Nat → Path → List Path
  | 0, _ => []
  | levels + 1, path =>
    (children tree path).flatMap fun child => child :: descendants tree levels child

/-- More levels than there are below any directory, counted through links. -/
def levelLimit (tree : FileTree) : Nat :=
  (tree.entries.length + 1) * (FileTree.linkLimit + 1)

/-- Whether the last name of a path fits; a name that is not text fits nothing. -/
def fitsPath (tokens : List Token) (path : Path) : Bool :=
  match path.fileName?.bind Bytes.toText? with
  | some name => fits tokens name.toList
  | none => false

/-- Whether a component without wildcards leads on: a dot does in a directory, and any other
one where there is something, be it a link that leads nowhere.
-/
def leadsOn (tree : FileTree) (path : Path) (name : List Char) : Bool :=
  if name = ['.'] ∨ name = ['.', '.'] then tree.isDirectory path
  else
    let next := within path (Bytes.ofText (String.ofList name))
    tree.isPresent next || tree.isListed next

mutual

/-- The paths below a path that fit the patterns. -/
def below (tree : FileTree) : List Pattern → Path → List Path
  | [], path => [path]
  | .name tokens :: rest, path =>
    match literal? tokens with
    | some name =>
      if leadsOn tree path name then
        below tree rest (within path (Bytes.ofText (String.ofList name)))
      else []
    | none =>
      (children tree path).flatMap fun child =>
        if fitsPath tokens child then below tree rest child else []
  | .anyDepth :: rest, path =>
    (descendants tree (levelLimit tree) path).flatMap fun child => atOrBelow tree rest child

/-- The paths at or below a path of any depth that fit the patterns. -/
def atOrBelow (tree : FileTree) : List Pattern → Path → List Path
  | [], path => if tree.isDirectory path then [path] else []
  | .anyDepth :: rest, path => atOrBelow tree rest path
  | .name tokens :: rest, path =>
    if fitsPath tokens path then below tree rest path else []

end

/-- The components of a pattern. A slash at its end starts no component. -/
def components (pattern : List Char) : List (List Char) :=
  let (first, later) := Text.pieces '/' pattern
  let all := first :: later
  if all.getLast? = some [] then all.dropLast else all

/-- Reads the components of a pattern. -/
def readPatterns : List (List Char) → Except PatternFault (List Pattern)
  | [] => .ok []
  | component :: rest =>
    match Pattern.ofText component, readPatterns rest with
    | .ok pattern, .ok patterns => .ok (pattern :: patterns)
    | .error reason, _ => .error reason
    | _, .error reason => .error reason

/-- The paths that fit a pattern. Only directories fit one that ends in a slash. -/
def search (tree : FileTree) (pattern : List Char) : Except PatternFault (List Path) :=
  let (start, rest) :=
    match pattern with
    | '/' :: rest => (Path.ofText "/", rest)
    | _ => (origin, pattern)
  match readPatterns (components rest) with
  | .error reason => .error reason
  | .ok patterns =>
    let found := below tree (if patterns = [] then [.name []] else patterns) start
    .ok (if pattern.getLast? = some '/' then found.filter tree.isDirectory else found)

end RouteDesk.Wildcard
