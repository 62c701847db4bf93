import RouteDesk.Creation.Session
import RouteDesk.Creation.World

/-! Requests in one workspace, in a world with a clock. At every moment the callers are
visited in order, round after round until none of them can go on; then the clock moves to the
next moment at which something is due. Only so many waits can end in one round; whoever still
waits then looks whether the time is over.
-/

namespace RouteDesk

/-- Who makes a request: when, how long the caller waits for it, and who answers questions. -/
structure Visitor where
  start : Nat := 0
  patience : Option Nat := none
  prompt : Dialogue := { lines := [] }
  finished : Option Nat := none

/-- When a caller gives up. -/
def Visitor.leaves? (visitor : Visitor) : Option Nat :=
  visitor.patience.map (visitor.start + ·)

/-- Something that happened to a request at a moment. -/
structure Moment where
  time : Nat
  caller : Nat
  event : Event

/-- How far requests in a world have come. -/
structure Timeline (σ : Type) where
  session : Session
  world : σ
  visitors : List Visitor
  now : Nat := 0
  /-- Who is visited next. -/
  cursor : Nat := 0
  /-- Whether anyone has moved since the first one was visited. -/
  moved : Bool := false
  /-- How many more waits can end in this round. -/
  spare : Nat := waitsInARow
  /-- When the search that is under way has begun, and when it is answered. -/
  searchedAt : Nat := 0
  answerAt : Nat := 0
  /-- What has happened, the latest first. -/
  trace : List Moment := []
  /-- The lines of the log, the latest first. -/
  notes : Log := []

namespace Timeline

variable {σ : Type}

/-- The requests of some callers before anyone has come. -/
def start (creator : Creator) (world : σ) (callers : List (Job × Visitor)) : Timeline σ :=
  { session := { creator, calls := callers.map fun caller => { job := caller.1 } }
    world
    visitors := callers.map Prod.snd }

/-- The log of the timeline. -/
def log (timeline : Timeline σ) : Log :=
  timeline.notes.reverse

/-- The timeline with more lines in its log. -/
def noted (timeline : Timeline σ) (lines : Log) : Timeline σ :=
  { timeline with notes := lines.reverse ++ timeline.notes }

/-- The caller with this number. -/
def visitor (timeline : Timeline σ) (caller : Nat) : Visitor :=
  (timeline.visitors[caller]?).getD {}

/-- The timeline with a change of one caller. -/
def onVisitor (timeline : Timeline σ) (caller : Nat) (change : Visitor → Visitor)
    : Timeline σ :=
  { timeline with visitors := timeline.visitors.modify caller change }

/-- The timeline after the end of a wait, if one can end in this round. -/
def waitOver? (timeline : Timeline σ) : Option (Timeline σ) :=
  match timeline.spare with
  | 0 => none
  | left + 1 => some { timeline with spare := left }

/-- The timeline after the end of a search, if it has taken time and that can end. -/
def searchOver? (timeline : Timeline σ) : Option (Timeline σ) :=
  if timeline.searchedAt < timeline.answerAt then timeline.waitOver? else some timeline

/-- The timeline with the callers to be visited in a new round. -/
def newRound (timeline : Timeline σ) : Timeline σ :=
  { timeline with cursor := 0, moved := false, spare := waitsInARow }

/-- The answer of the caller to the question for a name. -/
def ask (world : World σ) (timeline : Timeline σ) (caller : Nat) (dialect : Dialect)
    : Timeline σ × Reply :=
  let root := timeline.session.creator.root
  let asked := (timeline.visitor caller).prompt.ask (Creator.question dialect)
    (RouteName.check (world.tree timeline.world) root dialect)
  let told := timeline.onVisitor caller fun visitor => { visitor with prompt := asked.prompt }
  (told.noted asked.log, .answered asked.answer)

/-- The reply to whoever waits for something until a deadline: what it waits for comes first
if it is due, and else the time may be over.
-/
def replyBy (timeline : Timeline σ) (due deadline : Nat) (reached : Option (Timeline σ))
    (reply : Timeline σ → Timeline σ × Reply)
    : Option (Timeline σ × Reply) :=
  let ended := if due ≤ timeline.now ∧ due ≤ deadline then reached else none
  match ended with
  | some next => some (reply next)
  | none => if deadline ≤ timeline.now then some (timeline, .timeUp) else none

/-- The reply of the world to whoever has the turn, if it is due. Getting the turn, a search
that takes time and a pause are waits.
-/
def replyIn (world : World σ) (timeline : Timeline σ) (caller : Nat) (dialect : Dialect)
    : Phase → Option (Timeline σ × Reply)
  | .ready => timeline.waitOver?.map fun next => (next, .go)
  | .asking => some (timeline.ask world caller dialect)
  | .dispatching artifact =>
    let (state, outcome, log) := world.dispatch timeline.now artifact timeline.world
    some ({ timeline.noted log with world := state }, .dispatched outcome)
  | .evaluating (.file artifact deadline) =>
    timeline.replyBy timeline.answerAt deadline timeline.searchOver? fun next =>
      let (state, outcome) := world.search artifact.fileName next.now next.world
      ({ next with world := state }, .searched outcome)
  | .evaluating (.focus _ _ _) =>
    some (timeline, .looked (world.focused timeline.now timeline.world))
  | .resting watch wake =>
    timeline.replyBy wake watch.deadline timeline.waitOver? fun next => (next, .rested)
  | .settled _ => none

/-- What can happen to a request now: it comes, it goes on, or its caller gives up. -/
def action? (world : World σ) (timeline : Timeline σ) (caller : Nat)
    : Option (Timeline σ × Action) :=
  let visitor := timeline.visitor caller
  let abandoned : Option (Timeline σ × Action) :=
    match visitor.leaves? with
    | some moment => if moment ≤ timeline.now then some (timeline, .drop caller) else none
    | none => none
  let replied (phase : Phase) (job : Job) : Option (Timeline σ × Action) :=
    if timeline.session.holdsTurn caller then
      match timeline.replyIn world caller job.dialect phase with
      | some (next, reply) => some (next, .deliver caller reply)
      | none => abandoned
    else abandoned
  match timeline.session.calls[caller]? with
  | some ⟨_, .absent⟩ =>
    if visitor.start = 0 then some (timeline, .arrive caller)
    else if visitor.start ≤ timeline.now then
      timeline.waitOver?.map fun next => (next, .arrive caller)
    else none
  | some ⟨job, .queued⟩ => replied .ready job
  | some ⟨job, .active phase⟩ => replied phase job
  | _ => none

/-- What an event means for the surroundings: a report is shown, and a search begins. -/
def heed (world : World σ) (caller : Nat) (timeline : Timeline σ) : Event → Timeline σ
  | .reported message =>
    let (prompt, log) := (timeline.visitor caller).prompt.tell message
    let told := timeline.onVisitor caller fun visitor => { visitor with prompt }
    told.noted log
  | .searching _ =>
    { timeline with
      searchedAt := timeline.now
      answerAt := timeline.now + world.searchTime timeline.world }
  | _ => timeline

/-- Lets an action of a caller happen. -/
def perform (world : World σ) (timeline : Timeline σ) (caller : Nat) (action : Action)
    : Timeline σ :=
  let (session, events, log) :=
    timeline.session.step (world.tree timeline.world) timeline.now action
  let moments := events.map fun event => ⟨timeline.now, caller, event⟩
  let next := { timeline.noted log with
    session, moved := true, trace := moments.reverse ++ timeline.trace }
  let heeded := events.foldl (heed world caller) next
  if (session.state caller).isOver then
    heeded.onVisitor caller fun visitor => { visitor with finished := some timeline.now }
  else heeded

/-- When the one that has the turn can go on. -/
def turnDue? (timeline : Timeline σ) : Option Nat :=
  match timeline.session.line with
  | [] => none
  | caller :: _ =>
    match timeline.session.state caller with
    | .active (.evaluating watch) => some (min timeline.answerAt watch.deadline)
    | .active (.resting watch wake) => some (min wake watch.deadline)
    | _ => none

/-- When a request comes or its caller gives up. -/
def callDue (timeline : Timeline σ) (caller : Nat) : List Nat :=
  let visitor := timeline.visitor caller
  match timeline.session.state caller with
  | .absent => [visitor.start]
  | .queued | .active _ => visitor.leaves?.toList
  | _ => []

/-- The next moment at which something is due, if anything ever is. -/
def nextMoment? (world : World σ) (timeline : Timeline σ) : Option Nat :=
  let callers := (List.range timeline.session.calls.length).flatMap timeline.callDue
  let due := callers ++ timeline.turnDue?.toList ++ (world.next? timeline.world).toList
  (due.filter (timeline.now < ·)).min?

/-- Whether every request is over. -/
def isOver (timeline : Timeline σ) : Bool :=
  timeline.session.calls.all fun call => call.state.isOver

/-- One step: the visited caller goes on or is passed by, and when nobody has moved, time
passes. There is no step once every request is over, or nothing is due any more.
-/
def step? (world : World σ) (timeline : Timeline σ) : Option (Timeline σ) :=
  if timeline.isOver then none
  else if timeline.cursor < timeline.session.calls.length then
    match timeline.action? world timeline.cursor with
    | some (next, action) => some (next.perform world timeline.cursor action)
    | none => some { timeline with cursor := timeline.cursor + 1 }
  else if timeline.moved then some timeline.newRound
  else
    match timeline.nextMoment? world with
    | none => none
    | some moment =>
      let (state, log) := world.advance moment timeline.world
      some { (timeline.noted log).newRound with world := state, now := moment }

/-- The timeline after no more than so many steps. -/
def run (world : World σ) : Nat → Timeline σ → Timeline σ
  | 0, timeline => timeline
  | steps + 1, timeline =>
    match timeline.step? world with
    | some next => run world steps next
    | none => timeline

/-- More steps than the requests can take, if none of them goes on for ever without letting
time pass: as many as there are lines to read, moments to wait for, searches that fail and
waits at the last moment, for every caller and every visit.
-/
def stepLimit (world : World σ) (timeline : Timeline σ) : Nat :=
  let timings := timeline.session.creator.timings
  let callers := timeline.session.calls.length
  let lines :=
    timeline.visitors.foldl (fun lines visitor => lines + visitor.prompt.lines.length) 0
  let moments := (callers + 1) * (timings.fileTime + timings.focusTime + 4)
  let unhurried := world.faults timeline.world + (callers + 1) * (2 * waitsInARow)
  (callers + 2) * (4 * moments + 4 * lines + 4 * unhurried + 8 * (callers + 1))

/-- The timeline when nothing more happens. -/
def finish (world : World σ) (timeline : Timeline σ) : Timeline σ :=
  timeline.run world (timeline.stepLimit world)

/-- What came of a request. -/
def outcome? (timeline : Timeline σ) (caller : Nat)
    : Option (Except CreationError CreatedRoute) :=
  match timeline.session.state caller with
  | .settled outcome => some outcome
  | _ => none

end Timeline

end RouteDesk
