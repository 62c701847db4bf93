import RouteDesk.CommandLine.Run

/-! The command line program. It looks at the directories and files that a command concerns,
lets the command run on this picture of them, and writes back the settings file if the command
has changed it. It finds no programs, so that no editor and no generator are started.
-/

namespace RouteDesk.CommandLine

/-- How the program is called. -/
def usage : String :=
  "\n".intercalate [
    "Usage: route-desk [OPTIONS] new DIALECT [--name NAME] [--file-timeout SECONDS]",
    "           [--editor-timeout SECONDS] [--poll-interval MILLIS] [--editor EDITOR]",
    "           [--camel-version VERSION]",
    "       route-desk [OPTIONS] provider [--settings FILE] (get | set PROVIDER | clear)",
    "       route-desk [OPTIONS] [provider] help [COMMAND]",
    "Options: --root ROOT, --verbose, --help",
    ""]

/-- Takes a path over into the picture, as a directory or as a file. -/
def pictured (tree : FileTree) (path : Path) : IO FileTree := do
  try
    discard (IO.FS.realPath (path.child ".").display)
    return (tree.makeDirectories path).1
  catch _ =>
    try
      let content ← IO.FS.readBinFile path.display
      return (tree.writeWithParents path content.toList).1
    catch _ => return tree

/-- The picture of some paths and of everything above them. -/
def picture (home : Path) (paths : List Path) : IO FileTree := do
  let all := (home :: paths).flatMap fun path => path.ancestors.reverse
  let tree ← all.foldlM pictured {}
  match tree.locate true home with
  | .ok spot => return { tree with home := spot.place }
  | .error _ => return tree

/-- The settings file that a command concerns. -/
def concerned (home : Path) (invocation : Invocation) : Path :=
  match invocation.command with
  | .provider (some path) _ => home.join path
  | _ => (SettingsFile.ofProject {} (home.join invocation.root)).path

/-- Writes the file back if a command has changed it. -/
def writeBack (before after : FileTree) (path : Path) : IO Unit := do
  match before.read path, after.read path with
  | .ok old, .ok new => if old != new then write new
  | .error _, .ok new => write new
  | _, .error _ => return
where
  /-- Writes a content with the directories on the way to it. -/
  write (content : Bytes) : IO Unit := do
    if let some parent := path.parent? then IO.FS.createDirAll parent.display
    IO.FS.writeBinFile path.display ⟨content.toArray⟩

/-- The variables of the environment that options fall back to. -/
def environment : IO (List (String × String)) := do
  let names := [editorVariable, versionVariable]
  let values ← names.mapM fun name => IO.getEnv name
  return (names.zip values).filterMap fun (name, value) => value.map (name, ·)

/-- Runs a command and answers its exit status. -/
def perform (invocation : Invocation) : IO UInt32 := do
  let home := Path.ofText (← IO.currentDir).toString
  let file := concerned home invocation
  let tree ← picture home [home.join invocation.root, file]
  let aftermath := run { tree } invocation
  writeBack tree aftermath.tree file
  IO.print aftermath.report.output
  IO.eprint aftermath.report.messages
  return aftermath.report.status.toUInt32

end RouteDesk.CommandLine

/-- Reads the arguments, and runs the command that they stand for. -/
def main (arguments : List String) : IO UInt32 := do
  match RouteDesk.CommandLine.parse (← RouteDesk.CommandLine.environment) arguments with
  | .ok invocation => RouteDesk.CommandLine.perform invocation
  | .error .helpWanted =>
    IO.print RouteDesk.CommandLine.usage
    return 0
  | .error _ =>
    IO.eprint RouteDesk.CommandLine.usage
    return 2
