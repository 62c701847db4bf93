import RouteDesk.FileTree.Basic

/-! Walking a path through the tree: one step per piece, through symbolic links, to the place
it denotes. A walk follows at most forty links, and every piece must be entered from a
directory. A walk to a file that is to be written ends at a name with a slash behind it.
-/

namespace RouteDesk

/-- One step of a walk. -/
inductive Step where
  | stay
  | up
  | into (name : Bytes)
  /-- To a name that is written as that of a directory, where a file is to be. -/
  | closed
deriving DecidableEq

/-- What a piece of a path asks a walk to do. -/
def Step.ofPiece (piece : Bytes) : Step :=
  if piece = [] ∨ piece = [Path.dot] then .stay
  else if piece = [Path.dot, Path.dot] then .up
  else .into piece

/-- The steps of a path. A slash at its end is a step that stays in a directory. -/
def Path.steps (path : Path) : List Step :=
  let (first, later) := Text.pieces slash path.bytes
  (first :: later).map Step.ofPiece

/-- The path without the slashes at its end. -/
def Path.trimmed (path : Path) : Path :=
  let front := (path.bytes.reverse.dropWhile (· == slash)).reverse
  if front = [] then path else ⟨front⟩

/-- The steps of a path to a file that is to be written. -/
def Path.stepsToFile (path : Path) : List Step :=
  let front := path.trimmed.steps
  match front.getLast? with
  | some (.into _) => if path.trimmed = path then path.steps else front.dropLast ++ [.closed]
  | _ => path.steps

/-- Where a walk ends, and what is there. -/
structure Spot where
  place : Place
  entry : Option Entry

namespace FileTree

/-- The most bytes that a name may have. -/
def nameLimit : Nat := 255

/-- The most bytes that a path may have. -/
def pathLimit : Nat := 4095

/-- The most links that a walk follows. -/
def linkLimit : Nat := 40

/-- A walk from a place, where `jump` goes on after a link. Only the last name may be
missing, and a link there is followed only if asked for, by the steps that `reading` makes of
its target.
-/
def walkWith (tree : FileTree) (follow : Bool) (reading : Path → List Step)
    (jump : Place → List Step → Except FileError Spot)
    (place : Place)
    : List Step → Except FileError Spot
  | [] => .ok ⟨place, tree.entry? place⟩
  | step :: rest =>
    match tree.entry? place, step with
    | some .directory, .stay => walkWith tree follow reading jump place rest
    | some .directory, .up => walkWith tree follow reading jump place.dropLast rest
    | some .directory, .closed => .error .isDirectory
    | some .directory, .into name =>
      let next := place ++ [name]
      if nameLimit < name.length then .error .nameTooLong
      else
        match tree.entry? next with
        | none => if rest = [] then .ok ⟨next, none⟩ else .error .missing
        | some (.link target) =>
          if rest = [] ∧ follow = false then .ok ⟨next, some (.link target)⟩
          else if target.bytes = [] then .error .missing
          else
            let steps := if rest = [] then reading target else target.steps ++ rest
            jump (if target.isAbsolute then [] else place) steps
        | some _ => walkWith tree follow reading jump next rest
    | none, _ => .error .missing
    | some _, _ => .error .notDirectory

/-- A walk that follows no more than the given number of links. -/
def walk (tree : FileTree) (follow : Bool) (reading : Path → List Step)
    : Nat → Place → List Step → Except FileError Spot
  | 0 => walkWith tree follow reading fun _ _ => .error .linkLoop
  | links + 1 => walkWith tree follow reading (walk tree follow reading links)

/-- The spot that a path denotes if its end is read in a given way. -/
def locateBy (tree : FileTree) (follow : Bool) (reading : Path → List Step) (path : Path)
    : Except FileError Spot :=
  if path.bytes.contains 0 then .error .nulByte
  else if path.bytes = [] then .error .missing
  else if pathLimit < path.bytes.length then .error .nameTooLong
  else
    tree.walk follow reading linkLimit (if path.isAbsolute then [] else tree.home) (reading path)

/-- The spot that a path denotes, following a link at its end or not. -/
def locate (tree : FileTree) (follow : Bool) (path : Path) : Except FileError Spot :=
  tree.locateBy follow Path.steps path

/-- The spot of a file that is to be written, be it through links. -/
def locateFile (tree : FileTree) (path : Path) : Except FileError Spot :=
  tree.locateBy true Path.stepsToFile path

/-- What a path leads to, through links; nothing if the walk fails. -/
def target? (tree : FileTree) (path : Path) : Option Entry :=
  match tree.locate true path with
  | .ok spot => spot.entry
  | .error _ => none

/-- Whether a path leads to anything. -/
def isPresent (tree : FileTree) (path : Path) : Bool :=
  (tree.target? path).isSome

/-- Whether a path leads to a regular file. -/
def isFile (tree : FileTree) (path : Path) : Bool :=
  match tree.target? path with
  | some (.file _) => true
  | _ => false

/-- Whether a path leads to a directory. -/
def isDirectory (tree : FileTree) (path : Path) : Bool :=
  tree.target? path == some .directory

/-- Whether there is anything at a path, be it a link that leads nowhere. -/
def isListed (tree : FileTree) (path : Path) : Bool :=
  match tree.locate false path with
  | .ok spot => spot.entry.isSome
  | .error _ => false

/-- The absolute path without links that leads to the same place. -/
def canonical (tree : FileTree) (path : Path) : Except FileError Path :=
  match tree.locate true path with
  | .error reason => .error reason
  | .ok ⟨_, none⟩ => .error .missing
  | .ok ⟨place, some _⟩ => .ok (Path.ofComponents (.root :: place.map .name))

/-- The content of the file that a path leads to. -/
def read (tree : FileTree) (path : Path) : Except FileError Bytes :=
  match tree.locate true path with
  | .error reason => .error reason
  | .ok ⟨_, some (.file content)⟩ => .ok content
  | .ok ⟨_, some .directory⟩ => .error .isDirectory
  | .ok ⟨_, _⟩ => .error .missing

/-- The text of the file that a path leads to. -/
def readText (tree : FileTree) (path : Path) : Except FileError String :=
  match tree.read path with
  | .error reason => .error reason
  | .ok content =>
    match Bytes.toText? content with
    | some text => .ok text
    | none => .error .malformedText

end FileTree

end RouteDesk
