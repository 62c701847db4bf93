import RouteDesk.Desk.Clock

/-! Scripted programs: files that do the same on every start, by whatever links they are
reached.
-/

namespace RouteDesk

/-- Where a scripted program writes an empty file, as seen from its directory. -/
inductive ScriptOutput where
  | nothing
  /-- The file that the last argument names. -/
  | lastArgument
  | file (path : Path)

/-- What a scripted program does. -/
structure Script where
  output : ScriptOutput := .nothing
  errors : Bytes := []
  ending : Ending := .exited 0
  duration : Option Nat := some 1

namespace Script

/-- The path that the program writes to. -/
def outputPath? (script : Script) (launch : Launch) : Option Path :=
  match script.output with
  | .nothing => none
  | .lastArgument =>
    launch.arguments.getLast?.map fun argument => launch.directory.join ⟨argument⟩
  | .file path => some (launch.directory.join path)

/-- What the program does when it is started. It makes no directories. -/
def conduct (script : Script) (tree : FileTree) (launch : Launch) : Conduct :=
  let changes :=
    match script.outputPath? launch with
    | some path =>
      if path.parent?.all tree.isDirectory then [(1, FileChange.write path [])] else []
    | none => []
  { changes, errors := script.errors, ending := script.ending, duration := script.duration }

/-- The script that a launch runs: that of the place which its program leads to. -/
def of? (scripts : List (Place × Script)) (tree : FileTree) (launch : Launch) : Option Script :=
  match tree.locate true launch.program with
  | .ok spot => scripts.lookup spot.place
  | .error _ => none

/-- What the scripted programs at some places do. -/
def conducts (scripts : List (Place × Script)) : Conducts := fun tree launch =>
  match of? scripts tree launch with
  | some script => script.conduct tree launch
  | none => {}

end Script

end RouteDesk
