import RouteDesk.CommandLine.Run
import RouteDesk.Desk.Script
import RouteDesk.Proofs.Creation.Settling
import RouteDesk.Proofs.Desk.Course
import RouteDesk.Proofs.Route.Accepted

/-! What the exit status of a request for a new route tells about the programs that were started
and about the files that were found. A phase of the request goes with a course of its desk, which
every reply and every moment that passes preserves.
-/

namespace RouteDesk.CommandLine

open Timeline (Single Goes Replies Heeds)
open ClockedDesk (Attends)
open FileTree (IsName)

section

variable (toolbox : Toolbox) (generator : Generator) (editor : Path) (job : Job)

-----------------------------------------------------------------------------------------
-- What goes with a phase
-----------------------------------------------------------------------------------------

/-- No program was started. -/
def Untouched (state : ClockedDesk) : Prop :=
  Attends generator.root (· = { toolbox, generator, editor }) state

/-- An artifact of a name that was accepted, which is the given one if there is one. -/
def Offered (artifact : Artifact) : Prop :=
  ∃ name, artifact = .of generator.root job.dialect name
    ∧ IsName (Bytes.ofText artifact.fileName)
    ∧ ∀ dialect given, job = .named dialect given → name = given

/-- The generator was started for an artifact. -/
structure Begun (artifact : Artifact) (state : ClockedDesk) : Prop where
  offered : Offered generator job artifact
  attends : Attends generator.root (Desk.Course toolbox generator editor artifact) state

/-- A search was answered with the path of the artifact and nothing else. -/
def Spotted (trace : List Moment) (artifact : Artifact) : Prop :=
  .searched (.ok [artifact.path]) ∈ trace.map Moment.event

/-- What an outcome tells. -/
def Tells (trace : List Moment) (state : ClockedDesk) : Except CreationError CreatedRoute → Prop
  | .ok created =>
      Begun toolbox generator editor job created.artifact state
        ∧ created.path = created.artifact.path ∧ Spotted trace created.artifact
        ∧ ∃ document, state.desk.active = some document
  | .error (.tooLate .file _ _) => ∃ artifact, Begun toolbox generator editor job artifact state
  | .error (.tooLate .focus _ _) =>
      ∃ artifact, Begun toolbox generator editor job artifact state ∧ Spotted trace artifact
  | .error (.badName _) | .error (.generator _) | .error .noName =>
      Untouched toolbox generator editor state

/-- What goes with a phase. -/
def Reached (trace : List Moment) (state : ClockedDesk) : Phase → Prop
  | .ready => Untouched toolbox generator editor state
  | .asking => (∃ dialect, job = .unnamed dialect) ∧ Untouched toolbox generator editor state
  | .dispatching artifact =>
      Offered generator job artifact ∧ Untouched toolbox generator editor state
  | .evaluating (.file artifact _) | .resting (.file artifact _) _ =>
      Begun toolbox generator editor job artifact state
  | .evaluating (.focus artifact found _) | .resting (.focus artifact found _) _ =>
      Begun toolbox generator editor job artifact state
        ∧ found = artifact.path ∧ Spotted trace artifact
  | .settled outcome => Tells toolbox generator editor job trace state outcome

/-- What goes with how far a request has come. -/
def Holds (state : CallState) (timeline : Timeline ClockedDesk) : Prop :=
  match state with
  | .absent | .queued => Untouched toolbox generator editor timeline.world
  | .active phase => Reached toolbox generator editor job timeline.trace timeline.world phase
  | .settled outcome =>
      Tells toolbox generator editor job timeline.trace timeline.world outcome
  | .dropped => True

end

variable {toolbox : Toolbox} {generator : Generator} {editor : Path} {job : Job}
  {creator : Creator} {state : ClockedDesk} {trace : List Moment}

theorem Spotted.append {artifact : Artifact} (spotted : Spotted trace artifact)
    (new : List Moment)
    : Spotted (new ++ trace) artifact := by
  rw [Spotted, List.map_append]
  exact List.mem_append_right _ spotted

theorem holds_of_phase {timeline : Timeline ClockedDesk} {phase : Phase}
    : Holds toolbox generator editor job phase.state timeline
      ↔ Reached toolbox generator editor job timeline.trace timeline.world phase := by
  cases phase <;> exact Iff.rfl

-----------------------------------------------------------------------------------------
-- Replies
-----------------------------------------------------------------------------------------

theorem reached_offer (made : creator.root = generator.root)
    (untouched : Untouched toolbox generator editor state) (tree : FileTree) {name : String}
    (asked : ∀ dialect given, job = .named dialect given → name = given)
    : Reached toolbox generator editor job trace state
        (creator.offer tree job.dialect name).phase := by
  unfold Creator.offer
  dsimp only
  split
  case h_1 => exact untouched
  case h_2 accepted =>
    exact ⟨⟨name, by rw [made], RouteName.isName_of_check accepted, asked⟩, untouched⟩

/-- A reply and what it brings about go with the next phase, by cases of the reply. -/
theorem reached_react (plain : generator.root.IsPlain) (made : creator.root = generator.root)
    {conducts : Conducts} {timeline middle : Timeline ClockedDesk} {phase : Phase}
    {reply : Reply}
    (replies : Replies (ClockedDesk.world conducts) timeline 0 job.dialect phase middle reply)
    {tree : FileTree} {now : Nat} {reaction : Reaction}
    (reacts : creator.react tree now job phase reply = reaction)
    (reached : Reached toolbox generator editor job timeline.trace timeline.world phase)
    : Reached toolbox generator editor job
        ((reaction.events.map (Moment.mk now 0)).reverse ++ middle.trace) middle.world
        reaction.phase := by
  obtain rfl := reacts
  cases replies with
  | goes =>
      cases job with
      | named dialect name =>
          refine @reached_offer _ _ _ (.named dialect name) _ _ _ made reached tree name ?_
          intro _ given same
          exact (Job.named.inj same).2
      | unnamed dialect => exact ⟨⟨dialect, rfl⟩, reached⟩
  | @answers middle name asked =>
      obtain ⟨rfl, -⟩ := Prod.mk.inj asked
      obtain ⟨⟨dialect, rfl⟩, untouched⟩ := reached
      cases name with
      | none => exact untouched
      | some name => exact reached_offer made untouched tree nofun
  | @dispatches artifact next outcome log dispatched =>
      obtain ⟨offered, untouched⟩ := reached
      have course := untouched.dispatch dispatched
      cases outcome with
      | ok => exact ⟨offered, course⟩
      | error reason =>
          cases job with
          | named => exact course
          | unnamed dialect => exact ⟨⟨dialect, rfl⟩, course⟩
  | @searches artifact deadline left next outcome searched =>
      have begun : Begun toolbox generator editor job artifact timeline.world := reached
      obtain ⟨name, made, proper, -⟩ := begun.offered
      change ClockedDesk.search artifact.fileName timeline.now timeline.world = _ at searched
      obtain ⟨rfl, finds⟩ := begun.attends.search plain proper searched
      simp only [Creator.react, Creator.onSearched]
      split
      case h_1 found =>
        obtain rfl : found = artifact.path := by
          rw [finds [found] rfl found List.mem_cons_self, made]
          rfl
        refine ⟨begun, rfl, ?_⟩
        simp [Spotted]
      case h_2 => exact begun
      case h_3 => exact begun
  | @looks artifact found deadline =>
      obtain ⟨begun, rfl, spotted⟩ := reached
      simp only [Creator.react, Creator.onLooked]
      split
      case isTrue matched =>
        obtain ⟨document, active, -⟩ := Option.any_eq_true _ _ |>.mp matched
        exact ⟨begun, rfl, spotted.append _, document, active⟩
      case isFalse => exact ⟨begun, rfl, spotted.append _⟩
  | @rests watch wake left due within =>
      cases watch with
      | file => exact reached
      | focus =>
          obtain ⟨begun, rfl, spotted⟩ := reached
          exact ⟨begun, rfl, spotted⟩
  | @expires watch phase waits late =>
      rcases waits with rfl | ⟨wake, rfl⟩ <;> cases watch with
      | file artifact => exact ⟨artifact, reached⟩
      | focus artifact found => exact ⟨artifact, reached.1, reached.2.2⟩

-----------------------------------------------------------------------------------------
-- Steps
-----------------------------------------------------------------------------------------

/-- Every step of a request goes with what has become of its desk. -/
theorem holds_of_goes (plain : generator.root.IsPlain) (made : creator.root = generator.root)
    {conducts : Conducts} {timeline next : Timeline ClockedDesk} {before after : CallState}
    (single : Single creator job before timeline)
    (goes : Goes (ClockedDesk.world conducts) creator job timeline before next after)
    (holds : Holds toolbox generator editor job before timeline)
    : Holds toolbox generator editor job after next := by
  cases goes with
  | comes first heeds =>
      rw [Holds, heeds.world]
      exact holds
  | @replies _ phase middle _ reply first begun replies reaction reacts heeds =>
      rw [holds_of_phase, heeds.trace, heeds.world]
      refine reached_react plain made replies reacts ?_
      rcases begun with ⟨rfl, rfl⟩ | rfl <;> exact holds
  | passes => exact holds
  | returns => exact holds
  | @waits _ moment due later log last unmoved turn passes early advances =>
      obtain ⟨watch, waits, -⟩ := single.watch_of_turnDue turn
      have kept {artifact : Artifact}
          (begun : Begun toolbox generator editor job artifact timeline.world)
          : Begun toolbox generator editor job artifact later := by
        refine ⟨begun.offered, ?_⟩
        have advanced := begun.attends.advance (fun tree desk process ending errors course =>
          course.ended tree process ending errors) conducts moment
        change ClockedDesk.advance conducts moment timeline.world = (later, log) at advances
        rwa [advances] at advanced
      rcases waits with rfl | ⟨wake, rfl⟩ <;> cases watch with
      | file artifact => exact kept holds
      | focus artifact found => exact ⟨kept holds.1, holds.2⟩

-----------------------------------------------------------------------------------------
-- Runs
-----------------------------------------------------------------------------------------

section

variable (surroundings : Surroundings) (root : Path) (route : NewRoute)

/-- The start of the tool that generates files in the root, for a route of a name. -/
def IsGeneration (name : String) (launch : Launch) : Prop :=
  ∃ tree program, surroundings.toolbox.locate tree "jbang" = some program
    ∧ launch = {
      program
      directory := root
      arguments :=
        ((route.version.map fun version => s!"-Dcamel.jbang.version={version}").toList
          ++ ["camel@apache/camel", "init", route.dialect.fileName name]).map Bytes.ofText }

/-- The start of the editor for one path. -/
def IsShowing (path : Path) (launch : Launch) : Prop :=
  ∃ editor log directory,
    surroundings.toolbox.editor? surroundings.tree route.editor = some (editor, log)
    ∧ launch = { program := editor, directory, arguments := [path.bytes] }

/-- The workspace has answered a search with exactly these paths. -/
def Aftermath.Answered (aftermath : Aftermath) (found : List Path) : Prop :=
  ∃ timeline, aftermath.timeline = some timeline
    ∧ .searched (.ok found) ∈ timeline.trace.map Moment.event

/-- A route of a name was generated and shown, and its file was found. -/
structure Created (name : String) (aftermath : Aftermath) : Prop where
  launches : ∃ first second, aftermath.launches = [first, second]
    ∧ IsGeneration surroundings root route name first
    ∧ IsShowing surroundings route (root.child (route.dialect.fileName name)) second
  endings : ∃ first second, aftermath.endings = [(0, first), (1, second)]
    ∧ first.succeeded = true ∧ second.succeeded = true
  answered : aftermath.Answered [root.child (route.dialect.fileName name)]
  output : aftermath.report.output = (root.child (route.dialect.fileName name)).display ++ "\n"

/-- A route of a name was generated, and at most shown. -/
def Generated (name : String) (aftermath : Aftermath) : Prop :=
  ∃ first, IsGeneration surroundings root route name first
    ∧ (aftermath.launches = [first]
      ∨ ∃ second, IsShowing surroundings route (root.child (route.dialect.fileName name)) second
        ∧ aftermath.launches = [first, second])

/-- The name of a route is the given one, if there is one. -/
def IsNameOf (name : String) : Prop :=
  ∀ given, route.name = some given → name = given

/-- What the exit status of a request for a new route tells that is made for a root. -/
structure Truthful (given : Path) (aftermath : Aftermath) : Prop where
  created (done : aftermath.report.status = 0)
    : ∃ root name, surroundings.tree.canonical given = .ok root ∧ IsNameOf route name
        ∧ Created surroundings root route name aftermath
  untouched (early : aftermath.report.status ∈ [1, 2, 3, 130]) : aftermath.launches = []
  generated (late : aftermath.report.status ∈ [4, 5])
    : ∃ root name, surroundings.tree.canonical given = .ok root ∧ IsNameOf route name
        ∧ Generated surroundings root route name aftermath
        ∧ (aftermath.report.status = 5 →
          aftermath.Answered [root.child (route.dialect.fileName name)])

end

variable {surroundings : Surroundings} {root : Path} {route : NewRoute}

/-- A request that starts no program has a status that says so. -/
theorem Truthful.of_untouched {given : Path} {aftermath : Aftermath}
    (early : aftermath.report.status ∈ [1, 2, 3, 130]) (launches : aftermath.launches = [])
    : Truthful surroundings route given aftermath := by
  refine ⟨?_, fun _ => launches, ?_⟩
  · intro done
    simp [done] at early
  · intro late
    simp only [List.mem_cons, List.not_mem_nil, or_false] at early late
    omega

/-- A request that creates a route has a status that says so. -/
theorem Truthful.of_created {given : Path} {aftermath : Aftermath} {name : String}
    (canonical : surroundings.tree.canonical given = .ok root) (named : IsNameOf route name)
    (done : aftermath.report.status = 0)
    (created : Created surroundings root route name aftermath)
    : Truthful surroundings route given aftermath := by
  refine ⟨fun _ => ⟨root, name, canonical, named, created⟩, ?_, ?_⟩ <;> simp [done]

/-- A request for which something does not come in time has a status that says so. -/
theorem Truthful.of_late {given : Path} {aftermath : Aftermath} {name : String}
    (canonical : surroundings.tree.canonical given = .ok root) (named : IsNameOf route name)
    (late : aftermath.report.status ∈ [4, 5])
    (generated : Generated surroundings root route name aftermath)
    (answered : aftermath.report.status = 5 →
      aftermath.Answered [root.child (route.dialect.fileName name)])
    : Truthful surroundings route given aftermath := by
  refine ⟨?_, ?_, fun _ => ⟨root, name, canonical, named, generated, answered⟩⟩
  · intro done
    simp [done] at late
  · intro early
    simp only [List.mem_cons, List.not_mem_nil, or_false] at early late
    omega

theorem reportOf_ok {timeline : Timeline ClockedDesk} {created : CreatedRoute}
    (came : timeline.outcome? 0 = some (.ok created))
    : (reportOf timeline).status = 0
      ∧ (reportOf timeline).output = created.path.display ++ "\n" := by
  simp [reportOf, came]

theorem reportOf_error {timeline : Timeline ClockedDesk} {reason : CreationError}
    (came : timeline.outcome? 0 = some (.error reason))
    : (reportOf timeline).status = exitStatus reason := by
  simp [reportOf, came]

theorem dialect_request (route : NewRoute) (input : Bytes)
    : (route.request input).1.dialect = route.dialect := by
  unfold NewRoute.request
  split <;> rfl

/-- A single request whose pauses take time goes with what has become of its desk in the end. -/
theorem tells_timeline (named : surroundings.tree.Named) (plain : root.IsPlain)
    : ∃ outcome, (route.timeline surroundings root editor).outcome? 0 = some outcome
        ∧ Tells surroundings.toolbox { root, version := route.version } editor
          (route.request surroundings.input).1 (route.timeline surroundings root editor).trace
          (route.timeline surroundings root editor).world outcome := by
  have positive : 0 < (⟨root, route.timings⟩ : Creator).timings.interval :=
    Nat.lt_of_lt_of_le Nat.zero_lt_one (Nat.le_max_left _ _)
  have untouched : Untouched surroundings.toolbox { root, version := route.version } editor
      (route.desk surroundings root editor) :=
    ⟨named, .opened named plain, rfl⟩
  have visitor : ∃ prompt, route.request surroundings.input
      = ((route.request surroundings.input).1, { prompt }) := by
    unfold NewRoute.request
    split <;> exact ⟨_, rfl⟩
  obtain ⟨prompt, request⟩ := visitor
  have settles := Timeline.exists_settled_finish positive
    (ClockedDesk.world surroundings.conducts) (route.desk surroundings root editor)
    (route.request surroundings.input).1 prompt
    (Holds surroundings.toolbox { root, version := route.version } editor
      (route.request surroundings.input).1)
    untouched fun timeline before next after single goes holds =>
      holds_of_goes plain rfl single goes holds
  rw [← request] at settles
  exact settles

/-- An artifact that was offered has a name that was asked for. -/
theorem exists_name_of_offered {input : Bytes} {artifact : Artifact}
    (offered : Offered { root, version := route.version } (route.request input).1 artifact)
    : ∃ name, IsNameOf route name ∧ artifact = .of root route.dialect name := by
  obtain ⟨name, made, -, asked⟩ := offered
  refine ⟨name, ?_, made.trans (by rw [dialect_request])⟩
  intro given named
  refine asked route.dialect given ?_
  rw [NewRoute.request, named]

theorem IsShowing.of_shows {log : Log} {artifact : Artifact} {launch : Launch}
    (located : surroundings.toolbox.editor? surroundings.tree route.editor = some (editor, log))
    (shows : Desk.Shows editor artifact launch)
    : IsShowing surroundings route artifact.path launch := by
  obtain ⟨directory, rfl⟩ := shows
  exact ⟨editor, log, directory, located, rfl⟩

theorem generated_of_begun {log : Log} {name : String} {aftermath : Aftermath}
    (located : surroundings.toolbox.editor? surroundings.tree route.editor = some (editor, log))
    (begun : Begun surroundings.toolbox { root, version := route.version } editor
      (route.request surroundings.input).1 (.of root route.dialect name) state)
    (same : aftermath.launches = state.desk.launches)
    : Generated surroundings root route name aftermath := by
  obtain ⟨first, generates, launches⟩ := begun.attends.desk.launches
  refine ⟨first, generates, ?_⟩
  rw [same]
  rcases launches with one | ⟨second, shows, two⟩
  · exact .inl one
  · exact .inr ⟨second, .of_shows located shows, two⟩

theorem created_of_begun {log : Log} {name : String} {aftermath : Aftermath}
    (located : surroundings.toolbox.editor? surroundings.tree route.editor = some (editor, log))
    (begun : Begun surroundings.toolbox { root, version := route.version } editor
      (route.request surroundings.input).1 (.of root route.dialect name) state)
    (active : ∃ document, state.desk.active = some document)
    (launches : aftermath.launches = state.desk.launches)
    (endings : aftermath.endings = state.desk.endings)
    (answered : aftermath.Answered [root.child (route.dialect.fileName name)])
    (output : aftermath.report.output
      = (root.child (route.dialect.fileName name)).display ++ "\n")
    : Created surroundings root route name aftermath := by
  obtain ⟨document, active⟩ := active
  obtain ⟨first, second, ending, ending', generates, shows, succeeds, succeeds', two, ends⟩ :=
    begun.attends.desk.eq_of_active active
  exact {
    launches := ⟨first, second, launches.trans two, generates, .of_shows located shows⟩
    endings := ⟨ending, ending', endings.trans ends, succeeds, succeeds'⟩
    answered
    output }

/-- What is left behind by a request whose outcome tells what has become of its desk. -/
theorem truthful_of_tells {given : Path} {log : Log} {tree : FileTree}
    {timeline : Timeline ClockedDesk} {outcome : Except CreationError CreatedRoute}
    (canonical : surroundings.tree.canonical given = .ok root)
    (located : surroundings.toolbox.editor? surroundings.tree route.editor = some (editor, log))
    (came : timeline.outcome? 0 = some outcome)
    (tells : Tells surroundings.toolbox { root, version := route.version } editor
      (route.request surroundings.input).1 timeline.trace timeline.world outcome)
    : Truthful surroundings route given {
        report := reportOf timeline
        tree
        launches := timeline.world.desk.launches
        endings := timeline.world.desk.endings
        timeline := some timeline } := by
  have early {reason : CreationError} (came : timeline.outcome? 0 = some (.error reason))
      (status : exitStatus reason ∈ [1, 2, 3, 130])
      (untouched : Untouched surroundings.toolbox { root, version := route.version } editor
        timeline.world)
      : Truthful surroundings route given {
          report := reportOf timeline
          tree
          launches := timeline.world.desk.launches
          endings := timeline.world.desk.endings
          timeline := some timeline } := by
    refine .of_untouched ?_ ?_
    · rw [reportOf_error came]
      exact status
    · exact congrArg Desk.launches untouched.desk
  cases outcome with
  | ok created =>
      obtain ⟨begun, found, spotted, active⟩ := tells
      obtain ⟨status, output⟩ := reportOf_ok came
      obtain ⟨name, named, made⟩ := exists_name_of_offered begun.offered
      rw [made] at begun found spotted
      exact .of_created canonical named status
        (created_of_begun located begun active rfl rfl ⟨timeline, rfl, spotted⟩
          (output.trans (by rw [found]; rfl)))
  | error reason =>
      have status := reportOf_error came
      cases reason with
      | badName => exact early came (by simp [exitStatus]) tells
      | generator => exact early came (by simp [exitStatus]) tells
      | noName => exact early came (by simp [exitStatus]) tells
      | tooLate awaited fileName after =>
          cases awaited with
          | file =>
              obtain ⟨artifact, begun⟩ := tells
              obtain ⟨name, named, rfl⟩ := exists_name_of_offered begun.offered
              refine .of_late canonical named ?_ (generated_of_begun located begun rfl) ?_ <;>
                simp [status, exitStatus]
          | focus =>
              obtain ⟨artifact, begun, spotted⟩ := tells
              obtain ⟨name, named, rfl⟩ := exists_name_of_offered begun.offered
              refine .of_late canonical named ?_ (generated_of_begun located begun rfl)
                fun _ => ⟨timeline, rfl, spotted⟩
              simp [status, exitStatus]

/-- The exit status of a request for a new route tells what has happened: on success the route was
generated and shown in the canonical root, and its path, which is what is printed, was all that the
workspace found. No program was started if the request has failed before, and the generator once if
something did not come in time.
-/
theorem truthful_run (surroundings : Surroundings) (named : surroundings.tree.Named) (given : Path)
    (verbose : Bool) (route : NewRoute)
    : Truthful surroundings route given
        (run surroundings { root := given, verbose, command := .new route }) := by
  unfold run
  dsimp only
  split
  case h_1 => exact .of_untouched List.mem_cons_self rfl
  case h_2 root canonical =>
    unfold runNew
    split
    case h_1 => exact .of_untouched List.mem_cons_self rfl
    case h_2 editor log located =>
      have plain := FileTree.isPlain_of_canonical named canonical
      obtain ⟨outcome, came, tells⟩ := @tells_timeline editor surroundings root route named plain
      exact truthful_of_tells canonical located came tells

/-- A workspace with a generator that writes the file that it is asked for, and an editor. -/
def workshop : Surroundings :=
  let jbang := [Bytes.ofText "bin", Bytes.ofText "jbang"]
  let zed := [Bytes.ofText "bin", Bytes.ofText "zed"]
  { tree := [FileChange.makeDirectories (.ofText "/work"), .write (.ofText "/bin/jbang") [],
      .write (.ofText "/bin/zed") []].foldl (fun tree change => (change.apply tree).1) {}
    toolbox := {
      searchPath := [.ofText "/bin"]
      executables := [{ place := jbang }, { place := zed }] }
    conducts := Script.conducts [(jbang, { output := .lastArgument }), (zed, {})] }

theorem named_workshop : workshop.tree.Named := by
  have empty : ({} : FileTree).Named := ⟨by simp, by simp⟩
  exact FileTree.durable_named.apply (FileTree.durable_named.apply (FileTree.durable_named.apply
    empty _) _) _

/-- A request for a route with everything else as it is by default. -/
def workshopRoute : NewRoute :=
  { dialect := .xml, name := some "route" }

/-- The route is created there, so that its status tells of two processes and of a file. -/
theorem truthful_run_workshop
    : (run workshop { root := .ofText "work", command := .new workshopRoute }).report.status = 0
      ∧ Truthful workshop workshopRoute (.ofText "work")
          (run workshop { root := .ofText "work", command := .new workshopRoute }) :=
  ⟨by decide +kernel,
    truthful_run workshop named_workshop (.ofText "work") false workshopRoute⟩

end RouteDesk.CommandLine
