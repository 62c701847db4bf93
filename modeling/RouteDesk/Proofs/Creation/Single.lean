import RouteDesk.Creation.Timeline
import RouteDesk.Proofs.Creation.Record

/-! Timelines of a single request, whose caller waits as long as it takes and comes at once, if it
has not come yet. Every step is of one of five kinds, and there is one until the request is settled.
-/

namespace RouteDesk

-----------------------------------------------------------------------------------------
-- Answers
-----------------------------------------------------------------------------------------

namespace Dialogue

theorem lines_say (prompt : Dialogue) (text : String)
    : (prompt.say text).1.lines = prompt.lines := by
  unfold say
  split <;> rfl

/-- Every answer takes a line at least, by induction on the lines. -/
theorem lines_ask_le (message : String) (check : String → Except NameError Unit)
    (prompt : Dialogue)
    : (prompt.ask message check).prompt.lines.length
        + (prompt.ask message check).answer.toList.length ≤ prompt.lines.length := by
  suffices ∀ lines (prompt : Dialogue), (ask.go message check lines prompt).prompt.lines.length
      + (ask.go message check lines prompt).answer.toList.length ≤ lines.length from
    this _ _
  intro lines
  induction lines with
  | nil => exact fun _ => Nat.le_refl 0
  | cons line rest ih =>
      intro prompt
      simp only [ask.go]
      split
      case h_1 => exact Nat.le_succ _
      case h_2 text legible =>
        split
        case isTrue => exact Nat.le_succ _
        case isFalse =>
          split
          case h_1 => exact Nat.le_refl _
          case h_2 => exact (ih _).trans (Nat.le_succ _)

end Dialogue

-----------------------------------------------------------------------------------------
-- Sessions of a single request
-----------------------------------------------------------------------------------------

namespace Session

variable {creator : Creator} {job : Job}

/-- The session of a single request, which is in the line from when it comes until it is over. -/
def single (creator : Creator) (job : Job) (state : CallState) : Session :=
  { creator
    calls := [⟨job, state⟩]
    line :=
      match state with
      | .queued | .active _ => [0]
      | _ => [] }

theorem step_single_arrive (tree : FileTree) (now : Nat)
    : (single creator job .absent).step tree now (.arrive 0)
      = (single creator job .queued, [], []) :=
  rfl

theorem step_single_deliver {state : CallState} {phase : Phase}
    (begun : state = .queued ∧ phase = .ready ∨ state = .active phase) (tree : FileTree)
    (now : Nat) (reply : Reply)
    : (single creator job state).step tree now (.deliver 0 reply)
      = (single creator job (creator.react tree now job phase reply).phase.state,
          (creator.react tree now job phase reply).events,
          (creator.react tree now job phase reply).log) := by
  rcases begun with ⟨rfl, rfl⟩ | rfl
  all_goals
    change (_, (creator.react tree now job _ reply).events, _) = _
    cases came : (creator.react tree now job _ reply).phase <;>
      simp [single, withState, leave, Phase.state, came]

end Session

-----------------------------------------------------------------------------------------
-- Actions
-----------------------------------------------------------------------------------------

namespace Timeline

variable {σ : Type} {world : World σ} {timeline next : Timeline σ}

/-- The lines that the caller can still answer with. -/
def linesLeft (timeline : Timeline σ) : Nat :=
  (timeline.visitor 0).prompt.lines.length

/-- A caller who waits as long as it takes, with so many lines to answer with. -/
def IsPatient (timeline : Timeline σ) (lines : Nat) : Prop :=
  ∃ start prompt finished, timeline.visitors = [{ start, prompt, finished }]
    ∧ prompt.lines.length = lines

theorem IsPatient.linesLeft {lines : Nat} (patient : timeline.IsPatient lines)
    : timeline.linesLeft = lines := by
  obtain ⟨start, prompt, finished, visitors, read⟩ := patient
  rw [Timeline.linesLeft, visitor, visitors]
  exact read

theorem isPatient_heed {lines : Nat} (patient : timeline.IsPatient lines) (event : Event)
    : (heed world 0 timeline event).IsPatient lines := by
  unfold heed
  split
  case h_1 message =>
    obtain ⟨start, prompt, finished, visitors, read⟩ := patient
    refine ⟨start, (prompt.tell message).1, finished, ?_, ?_⟩
    · simp [onVisitor, noted, visitor, visitors]
    · rw [Dialogue.tell, Dialogue.lines_say, read]
  case h_2 => exact patient
  case h_3 => exact patient

/-- The timeline after an action of its caller, before anything of it is heeded. -/
def acted (timeline : Timeline σ) (session : Session) (events : List Event) (log : Log)
    : Timeline σ :=
  { timeline.noted log with
    session
    moved := true
    trace := (events.map (Moment.mk timeline.now 0)).reverse ++ timeline.trace }

/-- A search has begun just now. -/
structure Begins (world : World σ) (timeline next : Timeline σ) : Prop where
  searchedAt : next.searchedAt = timeline.now
  answerAt : next.answerAt = timeline.now + world.searchTime timeline.world

/-- What heeding some events makes of a timeline. -/
structure Heeds (surroundings : World σ) (timeline : Timeline σ) (events : List Event)
    (next : Timeline σ)
    : Prop where
  session : next.session = timeline.session
  trace : next.trace = timeline.trace
  world : next.world = timeline.world
  now : next.now = timeline.now
  cursor : next.cursor = timeline.cursor
  moved : next.moved = timeline.moved
  patient (lines : Nat) (patient : timeline.IsPatient lines) : next.IsPatient lines
  still (quiet : ∀ fileName, .searching fileName ∉ events)
    : next.searchedAt = timeline.searchedAt ∧ next.answerAt = timeline.answerAt
  began (fileName : String) (search : .searching fileName ∈ events)
    : Begins surroundings timeline next

/-- Either a search has begun just now, or none has begun. -/
theorem Heeds.searches {events : List Event} (heeds : Heeds world timeline events next)
    : next.searchedAt = timeline.searchedAt ∧ next.answerAt = timeline.answerAt
      ∨ Begins world timeline next := by
  by_cases search : ∃ fileName, .searching fileName ∈ events
  · obtain ⟨fileName, member⟩ := search
    exact .inr (heeds.began fileName member)
  · exact .inl (heeds.still (not_exists.mp search))

theorem heeds_heed (world : World σ) (timeline : Timeline σ) (event : Event)
    : Heeds world timeline [event] (heed world 0 timeline event) := by
  have patient (lines : Nat) := @isPatient_heed σ world timeline lines
  cases event with
  | searching fileName =>
      exact ⟨rfl, rfl, rfl, rfl, rfl, rfl, fun _ still => patient _ still _,
        fun quiet => absurd List.mem_cons_self (quiet fileName), fun _ _ => ⟨rfl, rfl⟩⟩
  | _ =>
      refine ⟨rfl, rfl, rfl, rfl, rfl, rfl, fun _ still => patient _ still _,
        fun _ => ⟨rfl, rfl⟩, ?_⟩
      intro fileName search
      cases List.mem_singleton.mp search

/-- A search that has begun in between has begun just now, as no time passes. -/
theorem Begins.of_later {middle : Timeline σ} {events : List Event}
    (heeds : Heeds world timeline events middle) (begins : Begins world middle next)
    : Begins world timeline next where
  searchedAt := begins.searchedAt.trans heeds.now
  answerAt := by rw [begins.answerAt, heeds.now, heeds.world]

/-- Events are heeded one after the other, by induction on them. -/
theorem heeds_heeds (world : World σ) (timeline : Timeline σ) (events : List Event)
    : Heeds world timeline events (events.foldl (heed world 0) timeline) := by
  induction events generalizing timeline with
  | nil =>
      refine ⟨rfl, rfl, rfl, rfl, rfl, rfl, fun _ still => still, fun _ => ⟨rfl, rfl⟩, ?_⟩
      intro fileName search
      cases search
  | cons event rest ih =>
      have first := heeds_heed world timeline event
      have later := ih (heed world 0 timeline event)
      rw [List.foldl_cons]
      exact {
        session := later.session.trans first.session
        trace := later.trace.trans first.trace
        world := later.world.trans first.world
        now := later.now.trans first.now
        cursor := later.cursor.trans first.cursor
        moved := later.moved.trans first.moved
        patient := fun lines still => later.patient lines (first.patient lines still)
        still := fun quiet => by
          have earlier := first.still fun fileName search =>
            quiet fileName (List.mem_singleton.mp search ▸ List.mem_cons_self)
          have after := later.still fun fileName search =>
            quiet fileName (List.mem_cons_of_mem _ search)
          exact ⟨after.1.trans earlier.1, after.2.trans earlier.2⟩
        began := fun fileName search => by
          rcases List.mem_cons.mp search with rfl | among
          · have begins := first.began fileName List.mem_cons_self
            rcases later.searches with ⟨searchedAt, answerAt⟩ | again
            · exact ⟨searchedAt.trans begins.searchedAt, answerAt.trans begins.answerAt⟩
            · exact again.of_later first
          · exact (later.began fileName among).of_later first }

section

variable {action : Action} {session : Session} {events : List Event} {log : Log}
  (stepped : timeline.session.step (world.tree timeline.world) timeline.now action
    = (session, events, log))

include stepped

theorem heeds_perform
    : Heeds world (timeline.acted session events log) events
        (timeline.perform world 0 action) := by
  have heeds := heeds_heeds world (timeline.acted session events log) events
  unfold perform
  rw [stepped]
  dsimp only
  split
  case isFalse => exact heeds
  case isTrue =>
    have begun (fileName : String) (search : .searching fileName ∈ events) :=
      heeds.began fileName search
    refine { heeds with
      patient := fun lines still => ?_
      began := fun fileName search =>
        ⟨(begun fileName search).searchedAt, (begun fileName search).answerAt⟩ }
    obtain ⟨start, prompt, finished, visitors, read⟩ := heeds.patient lines still
    refine ⟨start, prompt, some timeline.now, ?_, read⟩
    change List.modify (List.foldl _ (timeline.acted session events log) events).visitors _ _ = _
    rw [visitors]
    rfl

/-- Whoever is over by an action has finished just now. -/
theorem finished_perform {lines : Nat} (patient : timeline.IsPatient lines)
    (over' : (session.state 0).isOver = true)
    : ((timeline.perform world 0 action).visitor 0).finished = some timeline.now := by
  have heeds := heeds_heeds world (timeline.acted session events log) events
  obtain ⟨start, prompt, finished, visitors, -⟩ := heeds.patient lines patient
  unfold perform
  rw [stepped]
  dsimp only
  rw [if_pos over', visitor, onVisitor]
  change (Option.getD (List.modify
    (List.foldl _ (timeline.acted session events log) events).visitors _ _)[0]? _).finished = _
  rw [visitors]
  rfl

end

/-- When a request in a phase goes on if its time is not over by then. -/
def resumption? (timeline : Timeline σ) : Phase → Option Nat
  | .evaluating (.file _ _) => some timeline.answerAt
  | .resting _ wake => some wake
  | _ => none

/-- Whether what a request in a phase waits for can end in this round. -/
def CanResume (timeline : Timeline σ) : Phase → Prop
  | .evaluating _ => timeline.searchOver? ≠ none
  | _ => timeline.waitOver? ≠ none

-----------------------------------------------------------------------------------------
-- Replies
-----------------------------------------------------------------------------------------

/-- The replies of a world to a request in a phase, and the timelines that they come in. -/
inductive Replies (world : World σ) (timeline : Timeline σ) (caller : Nat) (dialect : Dialect)
    : Phase → Timeline σ → Reply → Prop
  | goes (left : Nat)
    : Replies world timeline caller dialect .ready { timeline with spare := left } .go
  | answers {next : Timeline σ} {name : Option String}
    (asked : timeline.ask world caller dialect = (next, .answered name))
    : Replies world timeline caller dialect .asking next (.answered name)
  | dispatches {artifact : Artifact} {state : σ} {outcome : Except GeneratorError Unit}
    {log : Log}
    (dispatched : world.dispatch timeline.now artifact timeline.world = (state, outcome, log))
    : Replies world timeline caller dialect (.dispatching artifact)
        { timeline.noted log with world := state } (.dispatched outcome)
  | searches {artifact : Artifact} {deadline : Nat} (left : Nat) {state : σ}
    {outcome : Except String (List Path)}
    (searched : world.search artifact.fileName timeline.now timeline.world = (state, outcome))
    (due : timeline.answerAt ≤ timeline.now) (within : timeline.answerAt ≤ deadline)
    : Replies world timeline caller dialect (.evaluating (.file artifact deadline))
        { timeline with spare := left, world := state } (.searched outcome)
  | looks {artifact : Artifact} {found : Path} {deadline : Nat}
    : Replies world timeline caller dialect (.evaluating (.focus artifact found deadline)) timeline
        (.looked (world.focused timeline.now timeline.world))
  | rests {watch : Watch} {wake : Nat} (left : Nat) (due : wake ≤ timeline.now)
    (within : wake ≤ watch.deadline)
    : Replies world timeline caller dialect (.resting watch wake) { timeline with spare := left }
        .rested
  | expires {watch : Watch} {phase : Phase}
    (waits : phase = .evaluating watch ∨ ∃ wake, phase = .resting watch wake)
    (late : watch.deadline ≤ timeline.now) {due : Nat}
    (resumes : timeline.resumption? phase = some due)
    (missed : timeline.CanResume phase → due ≤ timeline.now → watch.deadline < due)
    : Replies world timeline caller dialect phase timeline .timeUp

/-- What every reply keeps of the timeline. -/
structure Keeps (timeline next : Timeline σ) : Prop where
  session : next.session = timeline.session
  now : next.now = timeline.now
  cursor : next.cursor = timeline.cursor
  searchedAt : next.searchedAt = timeline.searchedAt

theorem Replies.keeps {caller : Nat} {dialect : Dialect} {phase : Phase} {reply : Reply}
    (replies : Replies world timeline caller dialect phase next reply)
    : Keeps timeline next := by
  cases replies with
  | answers asked =>
      obtain ⟨rfl, -⟩ := Prod.mk.inj asked
      exact ⟨rfl, rfl, rfl, rfl⟩
  | _ => exact ⟨rfl, rfl, rfl, rfl⟩

/-- No reply gives the caller more lines, and an answer takes one at least. -/
theorem Replies.patient {lines : Nat} (patient : timeline.IsPatient lines) {dialect : Dialect}
    {phase : Phase} {reply : Reply} (replies : Replies world timeline 0 dialect phase next reply)
    : ∃ left, next.IsPatient left ∧ left ≤ lines
        ∧ ∀ name, reply = .answered (some name) → left < lines := by
  cases replies with
  | answers asked =>
      obtain ⟨start, prompt, finished, visitors, rfl⟩ := patient
      have visitor : timeline.visitor 0 = { start, prompt, finished } := by
        rw [Timeline.visitor, visitors]
        rfl
      have taken := prompt.lines_ask_le (Creator.question dialect)
        (RouteName.check (world.tree timeline.world) timeline.session.creator.root dialect)
      rw [ask, visitor] at asked
      obtain ⟨rfl, answer⟩ := Prod.mk.inj asked
      refine ⟨_, ⟨start, _, finished, ?_, rfl⟩, Nat.le_of_add_right_le taken,
        fun name answered => ?_⟩
      · simp [noted, onVisitor, visitors]
      · rw [Reply.answered.inj (answer.trans answered)] at taken
        exact taken
  | _ => exact ⟨lines, patient, Nat.le_refl _, by rintro name ⟨⟩⟩

theorem spare_of_waitOver (over' : timeline.waitOver? = some next)
    : ∃ left, next = { timeline with spare := left } := by
  unfold waitOver? at over'
  split at over'
  case h_1 => cases over'
  case h_2 left _ => exact ⟨left, (Option.some.inj over').symm⟩

theorem spare_of_searchOver (over' : timeline.searchOver? = some next)
    : ∃ left, next = { timeline with spare := left } := by
  unfold searchOver? at over'
  split at over'
  · exact spare_of_waitOver over'
  · exact ⟨timeline.spare, (Option.some.inj over').symm⟩

theorem waitOver_ne_none (spared : 0 < timeline.spare) : timeline.waitOver? ≠ none := by
  obtain ⟨left, spare⟩ := Nat.exists_eq_add_one.mpr spared
  rw [waitOver?, spare]
  exact Option.some_ne_none _

theorem searchOver_ne_none (spared : timeline.searchedAt < timeline.answerAt → 0 < timeline.spare)
    : timeline.searchOver? ≠ none := by
  unfold searchOver?
  split
  case isTrue longer => exact waitOver_ne_none (spared longer)
  case isFalse => exact Option.some_ne_none _

/-- Whoever waits until a deadline gets the reply in time, or is told that the time is over. -/
theorem replyBy_eq_some {due deadline : Nat} {reached : Option (Timeline σ)}
    {answer : Timeline σ → Timeline σ × Reply} {reply : Reply}
    (replied : timeline.replyBy due deadline reached answer = some (next, reply))
    : (∃ middle, reached = some middle ∧ due ≤ timeline.now ∧ due ≤ deadline
        ∧ answer middle = (next, reply))
      ∨ deadline ≤ timeline.now ∧ timeline = next ∧ .timeUp = reply
        ∧ (reached ≠ none → due ≤ timeline.now → deadline < due) := by
  unfold replyBy at replied
  dsimp only at replied
  split at replied
  case h_1 middle ended =>
    split at ended
    case isTrue due => exact .inl ⟨middle, ended, due.1, due.2, Option.some.inj replied⟩
    case isFalse => cases ended
  case h_2 missed =>
    split at replied
    case isTrue late =>
      cases replied
      refine .inr ⟨late, rfl, rfl, fun reaches due' => ?_⟩
      by_contra within
      rw [if_pos ⟨due', Nat.le_of_not_lt within⟩] at missed
      exact reaches missed
    case isFalse => cases replied

/-- No reply comes only as long as the reply is not due and the time is not over. -/
theorem replyBy_eq_none {due deadline : Nat} {reached : Option (Timeline σ)}
    {answer : Timeline σ → Timeline σ × Reply}
    (silent : timeline.replyBy due deadline reached answer = none) (reaches : reached ≠ none)
    : timeline.now < min due deadline := by
  unfold replyBy at silent
  obtain ⟨middle, rfl⟩ := Option.ne_none_iff_exists'.mp reaches
  dsimp only at silent
  split at silent
  case h_1 => cases silent
  case h_2 missed =>
    split at missed
    case isTrue => cases missed
    case isFalse early =>
      split at silent
      · cases silent
      · omega

/-- Every reply is one of these. -/
theorem replies_of_replyIn {caller : Nat} {dialect : Dialect} {phase : Phase} {reply : Reply}
    (replied : timeline.replyIn world caller dialect phase = some (next, reply))
    : Replies world timeline caller dialect phase next reply := by
  unfold replyIn at replied
  split at replied
  case h_1 =>
    obtain ⟨middle, waited, same⟩ := Option.map_eq_some_iff.mp replied
    cases same
    obtain ⟨left, rfl⟩ := spare_of_waitOver waited
    exact .goes left
  case h_2 =>
    obtain ⟨rfl, rfl⟩ := Prod.mk.inj (Option.some.inj replied)
    exact .answers rfl
  case h_3 =>
    cases replied
    exact .dispatches rfl
  case h_4 =>
    rcases replyBy_eq_some replied
      with ⟨middle, reached, due, within, answered⟩ | ⟨late, rfl, rfl, missed⟩
    · obtain ⟨left, rfl⟩ := spare_of_searchOver reached
      cases answered
      exact .searches left rfl due within
    · exact .expires (.inl rfl) late rfl missed
  case h_5 =>
    cases replied
    exact .looks
  case h_6 =>
    rcases replyBy_eq_some replied
      with ⟨middle, reached, due, within, answered⟩ | ⟨late, rfl, rfl, missed⟩
    · obtain ⟨left, rfl⟩ := spare_of_waitOver reached
      cases answered
      exact .rests left due within
    · exact .expires (.inr ⟨_, rfl⟩) late rfl missed
  case h_7 => cases replied

/-- The time for a search is over only before it is answered. -/
theorem Replies.late_of_searching {caller deadline : Nat} {dialect : Dialect} {artifact : Artifact}
    (replies : Replies world timeline caller dialect (.evaluating (.file artifact deadline)) next
      .timeUp)
    (spared : timeline.searchedAt < timeline.now → 0 < timeline.spare)
    : deadline ≤ timeline.now ∧ deadline < timeline.answerAt := by
  cases replies with
  | expires waits late resumes missed =>
      rcases waits with same | ⟨wake, same⟩
      · cases same
        cases resumes
        refine ⟨late, ?_⟩
        -- an answer at the very end of the time would still have counted
        by_contra inTime
        have due := (Nat.le_of_not_lt inTime).trans late
        exact inTime (missed (searchOver_ne_none fun longer => spared (longer.trans_le due)) due)
      · cases same

/-- The time for a pause is over only before it ends. -/
theorem Replies.late_of_resting {caller wake : Nat} {dialect : Dialect} {watch : Watch}
    (replies : Replies world timeline caller dialect (.resting watch wake) next .timeUp)
    (spared : wake ≤ timeline.now → 0 < timeline.spare)
    : watch.deadline ≤ timeline.now ∧ watch.deadline < wake := by
  cases replies with
  | expires waits late resumes missed =>
      rcases waits with same | ⟨later, same⟩
      · cases same
      · cases same
        cases resumes
        refine ⟨late, ?_⟩
        by_contra inTime
        have due := (Nat.le_of_not_lt inTime).trans late
        exact inTime (missed (waitOver_ne_none (spared due)) due)

-----------------------------------------------------------------------------------------
-- Moments
-----------------------------------------------------------------------------------------

/-- Time passes if something is due later on, and not more than until then. -/
theorem nextMoment_of_due {due : Nat}
    (waits : (∃ caller < timeline.session.calls.length, due ∈ timeline.callDue caller)
      ∨ timeline.turnDue? = some due)
    (later : timeline.now < due)
    : ∃ moment, timeline.nextMoment? world = some moment ∧ timeline.now < moment
        ∧ moment ≤ due := by
  unfold nextMoment?
  dsimp only
  set moments := List.filter _ _ with filtered
  have member : due ∈ moments := by
    rw [filtered, List.mem_filter]
    refine ⟨List.mem_append_left _ (List.mem_append.mpr ?_), decide_eq_true later⟩
    rcases waits with ⟨caller, known, waits⟩ | turn
    · exact .inl (List.mem_flatMap.mpr ⟨caller, List.mem_range.mpr known, waits⟩)
    · exact .inr (Option.mem_toList.mpr turn)
  cases least : moments.min? with
  | none =>
      rw [List.min?_eq_none_iff] at least
      cases least ▸ member
  | some moment =>
      obtain ⟨among, least⟩ := List.min?_eq_some_iff.mp least
      rw [filtered, List.mem_filter] at among
      exact ⟨moment, rfl, of_decide_eq_true among.2, least due member⟩

-----------------------------------------------------------------------------------------
-- Steps
-----------------------------------------------------------------------------------------

/-- A timeline of a single request that has come so far. Whenever the caller has been passed by in
a round, something is due later on.
-/
structure Single (creator : Creator) (job : Job) (state : CallState) (timeline : Timeline σ)
    : Prop where
  session : timeline.session = .single creator job state
  kept : state ≠ .dropped
  comesAtOnce (absent : state = .absent) : (timeline.visitor 0).start = 0
  unsettled (outcome : Except CreationError CreatedRoute) : state ≠ .active (.settled outcome)
  patient : timeline.IsPatient timeline.linesLeft
  visited : timeline.cursor ≤ 1
  searched : timeline.searchedAt ≤ timeline.now
  spared (first : timeline.cursor = 0) (unmoved : timeline.moved = false) : 0 < timeline.spare
  idle (last : timeline.cursor = 1) (unmoved : timeline.moved = false)
    : ∃ due, timeline.turnDue? = some due ∧ timeline.now < due

/-- What a step does to a timeline of a single request, and to the request. -/
inductive Goes (world : World σ) (creator : Creator) (job : Job) (timeline : Timeline σ)
    : CallState → Timeline σ → CallState → Prop
  | comes {next : Timeline σ} (first : timeline.cursor = 0)
    (heeds : Heeds world (timeline.acted (.single creator job .queued) [] []) [] next)
    : Goes world creator job timeline .absent next .queued
  | replies {state : CallState} {phase : Phase} {middle next : Timeline σ} {reply : Reply}
    (first : timeline.cursor = 0)
    (begun : state = .queued ∧ phase = .ready ∨ state = .active phase)
    (replies : Replies world timeline 0 job.dialect phase middle reply) {reaction : Reaction}
    (reacts : creator.react (world.tree middle.world) middle.now job phase reply = reaction)
    (heeds : Heeds world
      (middle.acted (.single creator job reaction.phase.state) reaction.events reaction.log)
      reaction.events next)
    (finishes : reaction.phase.state.isOver = true →
      (next.visitor 0).finished = some timeline.now)
    : Goes world creator job timeline state next reaction.phase.state
  | passes {state : CallState} (first : timeline.cursor = 0)
    : Goes world creator job timeline state { timeline with cursor := 1 } state
  | returns {state : CallState} (last : timeline.cursor = 1) (moved : timeline.moved = true)
    : Goes world creator job timeline state timeline.newRound state
  | waits {state : CallState} {moment due : Nat} {later : σ} {log : Log}
    (last : timeline.cursor = 1) (unmoved : timeline.moved = false)
    (due' : timeline.turnDue? = some due) (passes : timeline.now < moment) (early : moment ≤ due)
    (advances : world.advance moment timeline.world = (later, log))
    : Goes world creator job timeline state
        { (timeline.noted log).newRound with world := later, now := moment } state

namespace Single

variable {creator : Creator} {job : Job} {state : CallState}

theorem isOver_iff (single : Single creator job state timeline)
    : timeline.isOver = true ↔ ∃ outcome, state = .settled outcome := by
  have kept := single.kept
  rw [isOver, single.session]
  cases state <;> simp_all [Session.single, CallState.isOver]

theorem holdsTurn (single : Single creator job state timeline)
    (waits : state = .queued ∨ ∃ phase, state = .active phase)
    : timeline.session.holdsTurn 0 = true := by
  rw [single.session]
  rcases waits with rfl | ⟨phase, rfl⟩ <;> rfl

/-- A visited caller comes, or gets a reply if there is one. -/
theorem action_eq (single : Single creator job state timeline) (world : World σ)
    : timeline.action? world 0
      = match state with
        | .absent => some (timeline, .arrive 0)
        | .queued =>
          (timeline.replyIn world 0 job.dialect .ready).map fun replied =>
            (replied.1, .deliver 0 replied.2)
        | .active phase =>
          (timeline.replyIn world 0 job.dialect phase).map fun replied =>
            (replied.1, .deliver 0 replied.2)
        | _ => none := by
  obtain ⟨start, prompt, finished, visitors, -⟩ := single.patient
  have visitor : timeline.visitor 0 = { start, prompt, finished } := by rw [visitor, visitors]; rfl
  have call : timeline.session.calls[0]? = some ⟨job, state⟩ := by rw [single.session]; rfl
  have kept := single.kept
  have comes := single.comesAtOnce
  unfold action?
  rw [visitor] at comes
  rw [call, visitor]
  cases state with
  | absent => exact if_pos (comes rfl)
  | queued =>
      dsimp only
      rw [if_pos (single.holdsTurn (.inl rfl))]
      cases timeline.replyIn world 0 job.dialect .ready <;> rfl
  | active phase =>
      dsimp only
      rw [if_pos (single.holdsTurn (.inr ⟨phase, rfl⟩))]
      cases timeline.replyIn world 0 job.dialect phase <;> rfl
  | settled outcome => rfl
  | dropped => rfl

theorem turnDue_evaluating {watch : Watch}
    (single : Single creator job (.active (.evaluating watch)) timeline)
    : timeline.turnDue? = some (min timeline.answerAt watch.deadline) := by
  rw [turnDue?, single.session]
  rfl

theorem turnDue_resting {watch : Watch} {wake : Nat}
    (single : Single creator job (.active (.resting watch wake)) timeline)
    : timeline.turnDue? = some (min wake watch.deadline) := by
  rw [turnDue?, single.session]
  rfl

/-- A request that is passed by in a new round waits for something that is due later on. -/
theorem turnDue_of_action (single : Single creator job state timeline) {world : World σ}
    (unsettled : ∀ outcome, state ≠ .settled outcome) (spared : 0 < timeline.spare)
    (stuck : timeline.action? world 0 = none)
    : ∃ due, timeline.turnDue? = some due ∧ timeline.now < due := by
  rw [single.action_eq world] at stuck
  cases state with
  | absent => cases stuck
  | queued =>
      have silent := Option.map_eq_none_iff.mp stuck
      exact absurd (Option.map_eq_none_iff.mp silent) (waitOver_ne_none spared)
  | active phase =>
      have silent := Option.map_eq_none_iff.mp stuck
      cases phase with
      | ready => exact absurd (Option.map_eq_none_iff.mp silent) (waitOver_ne_none spared)
      | asking => cases silent
      | dispatching => cases silent
      | settled outcome => exact absurd rfl (single.unsettled outcome)
      | evaluating watch =>
          cases watch with
          | file artifact deadline =>
              exact ⟨_, single.turnDue_evaluating,
                replyBy_eq_none silent (searchOver_ne_none fun _ => spared)⟩
          | focus artifact found deadline => cases silent
      | resting watch wake =>
          exact ⟨_, single.turnDue_resting, replyBy_eq_none silent (waitOver_ne_none spared)⟩
  | settled outcome => exact absurd rfl (unsettled outcome)
  | dropped => exact absurd rfl single.kept

/-- A request is settled as soon as there is no step. -/
theorem settled_of_step (single : Single creator job state timeline)
    (ended : timeline.step? world = none)
    : ∃ outcome, state = .settled outcome := by
  rw [← single.isOver_iff]
  by_contra unfinished
  unfold step? at ended
  rw [if_neg unfinished] at ended
  split at ended
  case isTrue => split at ended <;> cases ended
  case isFalse last =>
    have visited := single.visited
    rw [single.session] at last
    split at ended
    case isTrue => cases ended
    case isFalse unmoved =>
      obtain ⟨due, turn, later⟩ := single.idle
        (by change ¬ timeline.cursor < 1 at last; omega) (by simpa using unmoved)
      obtain ⟨moment, next, -⟩ := @nextMoment_of_due _ world _ _ (.inr turn) later
      rw [next] at ended
      cases ended

theorem of_heeds {middle : Timeline σ} {reached : CallState} {events : List Event} {log : Log}
    (heeds : Heeds world (middle.acted (.single creator job reached) events log) events next)
    (kept : reached ≠ .dropped) (came : reached ≠ .absent)
    (unsettled : ∀ outcome, reached ≠ .active (.settled outcome))
    {lines : Nat} (patient : middle.IsPatient lines) (first : middle.cursor = 0)
    (searched : middle.searchedAt ≤ middle.now)
    : Single creator job reached next where
  session := heeds.session
  kept := kept
  comesAtOnce absent := absurd absent came
  unsettled := unsettled
  patient := by
    have still := heeds.patient lines patient
    rw [still.linesLeft]
    exact still
  visited := by
    rw [heeds.cursor]
    exact Nat.le_of_eq first |>.trans (Nat.zero_le _)
  searched := by
    rw [heeds.now]
    rcases heeds.searches with ⟨same, -⟩ | begins
    · rw [same]
      exact searched
    · exact Nat.le_of_eq begins.searchedAt
  spared _ unmoved := by
    rw [heeds.moved] at unmoved
    cases unmoved
  idle last := by
    rw [heeds.cursor] at last
    cases first.symm.trans last

theorem state_proper (phase : Phase)
    : phase.state ≠ .dropped ∧ phase.state ≠ .absent
        ∧ ∀ outcome, phase.state ≠ .active (.settled outcome) := by
  cases phase <;> simp [Phase.state]

/-- What is done by a caller who is visited. -/
theorem goes_of_action (single : Single creator job state timeline) (first : timeline.cursor = 0)
    {middle : Timeline σ} {action : Action}
    (acts : timeline.action? world 0 = some (middle, action))
    : ∃ reached, Goes world creator job timeline state (middle.perform world 0 action) reached
        ∧ Single creator job reached (middle.perform world 0 action) := by
  have replied (phase : Phase) (begun : state = .queued ∧ phase = .ready ∨ state = .active phase)
      (acts : (timeline.replyIn world 0 job.dialect phase).map (fun replied =>
        (replied.1, Action.deliver 0 replied.2)) = some (middle, action))
      : ∃ reached, Goes world creator job timeline state (middle.perform world 0 action) reached
          ∧ Single creator job reached (middle.perform world 0 action) := by
    obtain ⟨⟨after, reply⟩, answered, same⟩ := Option.map_eq_some_iff.mp acts
    obtain ⟨rfl, rfl⟩ := Prod.mk.inj same
    have replies := replies_of_replyIn answered
    have keeps := replies.keeps
    obtain ⟨lines, patient, -⟩ := replies.patient single.patient
    have stepped := @Session.step_single_deliver creator job _ _ begun
      (world.tree after.world) after.now reply
    rw [← single.session, ← keeps.session] at stepped
    have heeds := heeds_perform stepped
    have finishes (over' : (creator.react (world.tree after.world) after.now job phase
          reply).phase.state.isOver = true)
        : ((after.perform world 0 (.deliver 0 reply)).visitor 0).finished = some timeline.now := by
      rw [finished_perform stepped patient over', keeps.now]
    obtain ⟨kept, came, unsettled⟩ := state_proper (creator.react (world.tree after.world) after.now
      job phase reply).phase
    refine ⟨_, .replies first begun replies rfl heeds finishes, of_heeds heeds kept came unsettled
      patient (keeps.cursor.trans first) ?_⟩
    rw [keeps.searchedAt, keeps.now]
    exact single.searched
  rw [single.action_eq world] at acts
  cases state with
  | absent =>
      obtain ⟨rfl, rfl⟩ := Prod.mk.inj (Option.some.inj acts)
      have stepped := @Session.step_single_arrive creator job
        (world.tree timeline.world) timeline.now
      rw [← single.session] at stepped
      have heeds := heeds_perform stepped
      refine ⟨_, .comes first heeds, of_heeds heeds ?_ ?_ ?_ single.patient first single.searched⟩
      · exact CallState.noConfusion
      · exact CallState.noConfusion
      · exact fun _ => CallState.noConfusion
  | queued => exact replied .ready (.inl ⟨rfl, rfl⟩) acts
  | active phase => exact replied phase (.inr rfl) acts
  | settled outcome => cases acts
  | dropped => cases acts

/-- Every step is of one of the five kinds, and is followed by a timeline of the same request. -/
theorem step (single : Single creator job state timeline)
    (stepped : timeline.step? world = some next)
    : ∃ reached, Goes world creator job timeline state next reached
        ∧ Single creator job reached next := by
  have length : timeline.session.calls.length = 1 := by rw [single.session]; rfl
  have visited := single.visited
  have unfinished : ¬ timeline.isOver = true := by
    intro finished
    rw [step?, if_pos finished] at stepped
    cases stepped
  rw [step?, if_neg unfinished, length] at stepped
  split at stepped
  case isTrue early =>
    have first : timeline.cursor = 0 := by omega
    rw [first] at stepped
    split at stepped
    case h_1 middle action acts =>
      obtain rfl := Option.some.inj stepped
      exact single.goes_of_action first acts
    case h_2 stuck =>
      obtain rfl := Option.some.inj stepped
      refine ⟨state, .passes first, { single with
        visited := Nat.le_refl 1
        spared := nofun
        idle := fun _ unmoved => ?_ }⟩
      have unsettled (outcome : Except CreationError CreatedRoute)
          : state ≠ .settled outcome := fun settled =>
        unfinished (single.isOver_iff.mpr ⟨outcome, settled⟩)
      exact single.turnDue_of_action unsettled (single.spared first unmoved) stuck
  case isFalse late =>
    have last : timeline.cursor = 1 := by omega
    split at stepped
    case isTrue moved =>
      obtain rfl := Option.some.inj stepped
      exact ⟨state, .returns last moved, { single with
        visited := Nat.zero_le 1
        spared := fun _ _ => Nat.zero_lt_succ _
        idle := nofun }⟩
    case isFalse unmoved =>
      have unmoved : timeline.moved = false := by simpa using unmoved
      obtain ⟨due, turn, later⟩ := single.idle last unmoved
      obtain ⟨moment, next, passes, early⟩ := @nextMoment_of_due _ world _ _ (.inr turn) later
      rw [next] at stepped
      obtain rfl := Option.some.inj stepped
      exact ⟨state, .waits last unmoved turn passes early rfl, { single with
        visited := Nat.zero_le 1
        searched := single.searched.trans (Nat.le_of_lt passes)
        spared := fun _ _ => Nat.zero_lt_succ _
        idle := nofun }⟩

end Single

end Timeline

end RouteDesk
