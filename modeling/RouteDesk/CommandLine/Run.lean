import RouteDesk.CommandLine.Arguments
import RouteDesk.Desk.Clock
import RouteDesk.Creation.Timeline
import RouteDesk.Catalog.Store

/-! What the command line does: it creates a route, or reads and changes the provider. Every
kind of failure has an exit status of its own.
-/

namespace RouteDesk.CommandLine

/-- What a command has come to: its exit status and what it has written. -/
structure Report where
  status : Nat
  output : String := ""
  messages : String := ""
deriving DecidableEq

/-- What a command finds: the files, the programs and what they do, and the input. -/
structure Surroundings where
  tree : FileTree
  toolbox : Toolbox := {}
  conducts : Conducts := fun _ _ => {}
  input : Bytes := []

/-- The report of a failure. -/
def failed (status : Nat) (reason : String) : Report :=
  { status, messages := s!"❌ {reason}\n" }

/-- The exit status that tells a failure from others. -/
def exitStatus : CreationError → Nat
  | .badName _ => 2
  | .generator _ => 3
  | .tooLate .file _ _ => 4
  | .tooLate .focus _ _ => 5
  | .noName => 130

/-- The exit status of every other failure. -/
def otherStatus : Nat := 1

-----------------------------------------------------------------------------------------
-- The provider
-----------------------------------------------------------------------------------------

/-- Reads or changes the provider in a settings file. -/
def runProvider (file : SettingsFile) (action : ProviderTask) : FileTree × Report :=
  let changed (change : Change) (done : String) : FileTree × Report :=
    let (next, outcome) := ProviderStore.change change file
    match outcome with
    | .ok () =>
      (next.tree,
        { status := 0
          messages := s!"✅ {CatalogSettings.providerKey} {done} in {file.path.display}\n" })
    | .error reason => (next.tree, failed otherStatus reason.chain)
  match action with
  | .get =>
    match ProviderStore.read file with
    | .ok (some provider, _) => (file.tree, { status := 0, output := provider.name ++ "\n" })
    | .ok (none, _) => (file.tree, { status := 0, output := "(unset)\n" })
    | .error reason => (file.tree, failed otherStatus reason.chain)
  | .set provider => changed (.set provider) s!"= {provider.name}"
  | .clear => changed .clear "cleared"

-----------------------------------------------------------------------------------------
-- New routes
-----------------------------------------------------------------------------------------

/-- The timings of a request. Pauses last a millisecond at least. -/
def NewRoute.timings (route : NewRoute) : Timings :=
  { fileTime := route.fileTimeout * 1000
    focusTime := route.editorTimeout * 1000
    interval := max 1 route.interval }

/-- The desk of a request, once its editor is found. -/
def NewRoute.desk (route : NewRoute) (surroundings : Surroundings) (root editor : Path)
    : ClockedDesk :=
  { tree := surroundings.tree
    desk := {
      toolbox := surroundings.toolbox
      generator := { root, version := route.version }
      editor }
    workspace := (ProjectFiles.opened surroundings.tree root).1 }

/-- The request for a route: one of the given name, or one that is asked for. -/
def NewRoute.request (route : NewRoute) (input : Bytes) : Job × Visitor :=
  match route.name with
  | some name => (.named route.dialect name, {})
  | none => (.unnamed route.dialect, { prompt := Dialogue.ofInput input false })

/-- Everything that happens until the request is over. -/
def NewRoute.timeline (route : NewRoute) (surroundings : Surroundings) (root editor : Path)
    : Timeline ClockedDesk :=
  (Timeline.start ⟨root, route.timings⟩ (route.desk surroundings root editor)
    [route.request surroundings.input]).finish (ClockedDesk.world surroundings.conducts)

/-- The report of a request that is over. -/
def reportOf (timeline : Timeline ClockedDesk) : Report :=
  let shown := (timeline.visitor 0).prompt.shown
  match timeline.outcome? 0 with
  | some (.ok completed) =>
    { status := 0
      output := completed.path.display ++ "\n"
      messages := shown ++ s!"✅ Created {completed.artifact.fileName}\n" }
  | some (.error reason) =>
    { status := exitStatus reason, messages := shown ++ s!"❌ {reason.chain}\n" }
  | none => { status := otherStatus, messages := shown }

-----------------------------------------------------------------------------------------
-- Commands
-----------------------------------------------------------------------------------------

/-- What a command leaves behind: its report, the files, the programs it has started and how
they have ended, and everything that happened while a route was created.
-/
structure Aftermath where
  report : Report
  tree : FileTree
  launches : List Launch := []
  endings : List (Nat × Ending) := []
  timeline : Option (Timeline ClockedDesk) := none

/-- Creates a route in a root. -/
def runNew (surroundings : Surroundings) (root : Path) (route : NewRoute) : Aftermath :=
  match surroundings.toolbox.editor? surroundings.tree route.editor with
  | none =>
    { report := failed otherStatus
        s!"editor `{route.editor}` not found on PATH: {Toolbox.notFound}"
      tree := surroundings.tree }
  | some (editor, _) =>
    let timeline := route.timeline surroundings root editor
    { report := reportOf timeline
      tree := timeline.world.lastTree
      launches := timeline.world.desk.launches
      endings := timeline.world.desk.endings
      timeline := some timeline }

/-- Does what is asked for. -/
def run (surroundings : Surroundings) (invocation : Invocation) : Aftermath :=
  match surroundings.tree.canonical invocation.root with
  | .error reason =>
    { report := failed otherStatus
        s!"workspace root {invocation.root.display} not found: {reason.message}"
      tree := surroundings.tree }
  | .ok root =>
    match invocation.command with
    | .new route => runNew surroundings root route
    | .provider settings action =>
      let file : SettingsFile :=
        match settings with
        | some path => ⟨path, surroundings.tree⟩
        | none => SettingsFile.ofProject surroundings.tree root
      let (tree, report) := runProvider file action
      { report, tree }

end RouteDesk.CommandLine
