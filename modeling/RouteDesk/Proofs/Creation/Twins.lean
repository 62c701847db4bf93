import RouteDesk.Proofs.Creation.Arrivals
import RouteDesk.Proofs.Creation.Stages

/-! Single requests whose generator has been started go on alike, whoever has asked for the route
and whatever has happened before: step by step their timelines differ in nothing but who asks, and
what is on record. Nothing that belongs to the search for a name happens any more.
-/

namespace RouteDesk

-----------------------------------------------------------------------------------------
-- Phases behind the start of the generator
-----------------------------------------------------------------------------------------

/-- Whether the generator has been started: a request that has come to an end since then has got
its route, or has waited too long for it.
-/
def Phase.isBehindStart : Phase → Bool
  | .evaluating _ | .resting _ _ => true
  | .settled (.ok _) | .settled (.error (.tooLate _ _ _)) => true
  | _ => false

/-- When a request in a phase that waits for something is due. -/
def Phase.due? (answerAt : Nat) : Phase → Option Nat
  | .evaluating watch => some (min answerAt watch.deadline)
  | .resting watch wake => some (min wake watch.deadline)
  | _ => none

/-- Behind the start of the generator it makes no difference what was asked for; the request stays
there, and no name is looked for any more.
-/
theorem Creator.react_behindStart (creator : Creator) (tree : FileTree) (now : Nat)
    {phase : Phase} (behind : phase.isBehindStart = true) (reply : Reply) (job : Job)
    : (∀ other, creator.react tree now job phase reply = creator.react tree now other phase reply)
      ∧ (creator.react tree now job phase reply).phase.isBehindStart = true
      ∧ ∀ event ∈ (creator.react tree now job phase reply).events, event.isAttempt = false := by
  cases phase with
  | ready => cases behind
  | asking => cases behind
  | dispatching artifact => cases behind
  | settled outcome => exact ⟨fun _ => rfl, behind, List.forall_mem_nil _⟩
  | resting watch wake =>
      cases watch <;> cases reply <;>
        exact ⟨fun _ => rfl, rfl, by simp [Creator.react, Event.isAttempt]⟩
  | evaluating watch =>
      cases watch with
      | file artifact deadline =>
          cases reply with
          | searched outcome =>
              refine ⟨fun _ => rfl, ?_⟩
              simp only [Creator.react, Creator.onSearched]
              split <;> exact ⟨rfl, by simp [Event.isAttempt]⟩
          | _ => exact ⟨fun _ => rfl, rfl, by simp [Creator.react]⟩
      | focus artifact found deadline =>
          cases reply with
          | looked document =>
              refine ⟨fun _ => rfl, ?_⟩
              simp only [Creator.react, Creator.onLooked]
              split <;> exact ⟨rfl, by simp [Event.isAttempt]⟩
          | _ => exact ⟨fun _ => rfl, rfl, by simp [Creator.react]⟩

namespace Timeline

variable {σ : Type} {world : World σ} {timeline next : Timeline σ}

-----------------------------------------------------------------------------------------
-- Timelines of other requests
-----------------------------------------------------------------------------------------

/-- Who asks for what, and what is on record about it. -/
structure Guise where
  session : Session
  visitors : List Visitor
  trace : List Moment
  notes : Log

/-- The timeline at the same point for someone else. -/
def inGuise (timeline : Timeline σ) (guise : Guise) : Timeline σ :=
  { timeline with
    session := guise.session
    visitors := guise.visitors
    trace := guise.trace
    notes := guise.notes }

/-- A reply and its timeline, for someone else. -/
def replyInGuise (guise : Guise) (replied : Timeline σ × Reply) : Timeline σ × Reply :=
  (replied.1.inGuise guise, replied.2)

theorem waitOver_inGuise (timeline : Timeline σ) (guise : Guise)
    : (timeline.inGuise guise).waitOver? = timeline.waitOver?.map (·.inGuise guise) := by
  have same : (timeline.inGuise guise).spare = timeline.spare := rfl
  rw [waitOver?, waitOver?, same]
  cases timeline.spare <;> rfl

theorem searchOver_inGuise (timeline : Timeline σ) (guise : Guise)
    : (timeline.inGuise guise).searchOver? = timeline.searchOver?.map (·.inGuise guise) := by
  unfold searchOver?
  rw [waitOver_inGuise]
  change (if timeline.searchedAt < timeline.answerAt then _ else _) = _
  split <;> rfl

/-- Whoever waits until a deadline gets the same reply. -/
theorem replyBy_inGuise (timeline : Timeline σ) (guise : Guise) (due deadline : Nat)
    (reached : Option (Timeline σ)) {answer : Timeline σ → Timeline σ × Reply}
    (answers : ∀ middle, answer (middle.inGuise guise) = replyInGuise guise (answer middle))
    : (timeline.inGuise guise).replyBy due deadline (reached.map (·.inGuise guise)) answer
      = (timeline.replyBy due deadline reached answer).map (replyInGuise guise) := by
  have same : (timeline.inGuise guise).now = timeline.now := rfl
  have late : (if deadline ≤ timeline.now then some (timeline.inGuise guise, Reply.timeUp)
        else none)
      = (if deadline ≤ timeline.now then some (timeline, Reply.timeUp) else none).map
          (replyInGuise guise) := by
    split <;> rfl
  unfold replyBy
  rw [same]
  by_cases ready : due ≤ timeline.now ∧ due ≤ deadline
  · rw [if_pos ready, if_pos ready]
    cases reached with
    | some middle => exact congrArg some (answers middle)
    | none => exact late
  · rw [if_neg ready, if_neg ready]
    exact late

/-- Behind the start of the generator the world replies the same to everyone. -/
theorem replyIn_inGuise (world : World σ) (timeline : Timeline σ) (guise : Guise) {phase : Phase}
    (behind : phase.isBehindStart = true) (dialect other : Dialect)
    : (timeline.inGuise guise).replyIn world 0 other phase
      = (timeline.replyIn world 0 dialect phase).map (replyInGuise guise) := by
  cases phase with
  | ready => cases behind
  | asking => cases behind
  | dispatching artifact => cases behind
  | settled outcome => rfl
  | evaluating watch =>
      cases watch with
      | file artifact deadline =>
          unfold replyIn
          dsimp only
          rw [searchOver_inGuise]
          exact replyBy_inGuise timeline guise _ _ _ fun _ => rfl
      | focus artifact found deadline => rfl
  | resting watch wake =>
      unfold replyIn
      dsimp only
      rw [waitOver_inGuise]
      exact replyBy_inGuise timeline guise _ _ _ fun _ => rfl

/-- Whatever does not belong to the search for a name means the same for everyone, by induction on
the events.
-/
theorem heeds_inGuise (world : World σ) (guise : Guise) {events : List Event}
    (quiet : ∀ event ∈ events, event.isAttempt = false) (timeline : Timeline σ)
    : events.foldl (heed world 0) (timeline.inGuise guise)
        = (events.foldl (heed world 0) timeline).inGuise guise
      ∧ (events.foldl (heed world 0) timeline).visitors = timeline.visitors := by
  induction events generalizing timeline with
  | nil => exact ⟨rfl, rfl⟩
  | cons event rest ih =>
      obtain ⟨first, later⟩ := List.forall_mem_cons.mp quiet
      have heeded : heed world 0 (timeline.inGuise guise) event
            = (heed world 0 timeline event).inGuise guise
          ∧ (heed world 0 timeline event).visitors = timeline.visitors := by
        cases event <;> first | exact ⟨rfl, rfl⟩ | cases first
      obtain ⟨same, visitors⟩ := ih later (heed world 0 timeline event)
      rw [List.foldl_cons, List.foldl_cons, heeded.1]
      exact ⟨same, visitors.trans heeded.2⟩

/-- The only caller answers with this prompt. -/
def Answers (timeline : Timeline σ) (prompt : Dialogue) : Prop :=
  ∃ start finished, timeline.visitors = [{ start, prompt, finished }]

/-- Nothing happens any more that belongs to the search for a name, and the prompt stays as it
is.
-/
structure Onward (timeline next : Timeline σ) : Prop where
  trace : ∃ more, next.trace = more ++ timeline.trace
    ∧ ∀ moment ∈ more, moment.event.isAttempt = false
  prompt (prompt : Dialogue) (answers : timeline.Answers prompt) : next.Answers prompt

theorem Onward.of_same (trace : next.trace = timeline.trace)
    (visitors : next.visitors = timeline.visitors)
    : Onward timeline next where
  trace := ⟨[], trace, List.forall_mem_nil _⟩
  prompt prompt answers := by
    rw [Answers, visitors]
    exact answers

theorem Onward.trans {middle : Timeline σ} (first : Onward timeline middle)
    (second : Onward middle next)
    : Onward timeline next := by
  obtain ⟨more, trace, quiet⟩ := first.trace
  obtain ⟨again, trace', quiet'⟩ := second.trace
  refine ⟨⟨again ++ more, ?_, List.forall_mem_append.mpr ⟨quiet', quiet⟩⟩,
    fun prompt answers => second.prompt prompt (first.prompt prompt answers)⟩
  rw [trace', trace, List.append_assoc]

/-- The caller has finished if the request is over. -/
def closing (session : Session) (now : Nat) (timeline : Timeline σ) : Timeline σ :=
  if (session.state 0).isOver then
    timeline.onVisitor 0 fun visitor => { visitor with finished := some now }
  else timeline

section

variable {action : Action} {session : Session} {events : List Event} {log : Log}
  (stepped : timeline.session.step (world.tree timeline.world) timeline.now action
    = (session, events, log))

include stepped

theorem perform_eq
    : timeline.perform world 0 action
      = closing session timeline.now
          (events.foldl (heed world 0) (timeline.acted session events log)) := by
  unfold perform
  rw [stepped]
  rfl

variable (quiet : ∀ event ∈ events, event.isAttempt = false)

include quiet

/-- An action that makes the same of another session makes the same of its timeline. -/
theorem perform_inGuise {guise : Guise} {session' : Session} {log' : Log}
    (stepped' : guise.session.step (world.tree timeline.world) timeline.now action
      = (session', events, log'))
    : ∃ next, (timeline.inGuise guise).perform world 0 action
          = (timeline.perform world 0 action).inGuise next
        ∧ next.session = session' := by
  have acts : (timeline.inGuise guise).acted session' events log'
      = (timeline.acted session events log).inGuise
        ⟨session', guise.visitors,
          (events.map (Moment.mk timeline.now 0)).reverse ++ guise.trace,
          log'.reverse ++ guise.notes⟩ := rfl
  have other := @perform_eq σ world (timeline.inGuise guise) action session' events log' stepped'
  rw [other, perform_eq stepped, acts, (heeds_inGuise world _ quiet _).1]
  unfold closing
  split <;> split <;> exact ⟨⟨session', _, _, _⟩, rfl, rfl⟩

/-- An action that makes nothing of the search for a name goes onward. -/
theorem onward_perform : Onward timeline (timeline.perform world 0 action) := by
  have heeds := heeds_perform stepped
  obtain ⟨-, visitors⟩ := heeds_inGuise world ⟨session, [], [], []⟩ quiet
    (timeline.acted session events log)
  refine ⟨⟨(events.map (Moment.mk timeline.now 0)).reverse, heeds.trace, fun moment member => ?_⟩,
    fun prompt answers => ?_⟩
  · obtain ⟨event, among, rfl⟩ := List.mem_map.mp (List.mem_reverse.mp member)
    exact quiet event among
  · obtain ⟨start, finished, alone⟩ := answers
    rw [perform_eq stepped, closing]
    split
    · refine ⟨start, some timeline.now, ?_⟩
      rw [onVisitor, visitors]
      change timeline.visitors.modify 0 _ = _
      rw [alone]
      rfl
    · exact ⟨start, finished, visitors.trans alone⟩

end

-----------------------------------------------------------------------------------------
-- Steps behind the start of the generator
-----------------------------------------------------------------------------------------

section

variable {creator : Creator} {job other : Job} {phase : Phase} {guise : Guise}

/-- The timeline at a later moment. -/
def passing (world : World σ) (timeline : Timeline σ) (moment : Nat) : Timeline σ :=
  { (timeline.noted (world.advance moment timeline.world).2).newRound with
    world := (world.advance moment timeline.world).1
    now := moment }

/-- A step of a request that has the turn: a reply, a visit in vain, a new round, or some time. -/
theorem Single.step_active (single : Single creator job (.active phase) timeline) (world : World σ)
    : timeline.step? world
      = if timeline.cursor < 1 then
          match timeline.replyIn world 0 job.dialect phase with
          | some (middle, reply) => some (middle.perform world 0 (.deliver 0 reply))
          | none => some { timeline with cursor := timeline.cursor + 1 }
        else if timeline.moved then some timeline.newRound
        else (timeline.nextMoment? world).map (timeline.passing world) := by
  have unfinished : ¬ timeline.isOver = true := by
    rw [single.isOver_iff]
    exact fun ⟨outcome, settled⟩ => nomatch settled
  have length : timeline.session.calls.length = 1 := by rw [single.session]; rfl
  rw [step?, if_neg unfinished, length]
  split
  case isTrue early =>
    have first : timeline.cursor = 0 := by omega
    rw [first, single.action_eq world]
    dsimp only
    cases timeline.replyIn world 0 job.dialect phase <;> rfl
  case isFalse =>
    split
    · rfl
    · cases timeline.nextMoment? world <;> rfl

theorem Single.nextMoment_active (single : Single creator job (.active phase) timeline)
    (world : World σ)
    : timeline.nextMoment? world
      = (((phase.due? timeline.answerAt).toList ++ (world.next? timeline.world).toList).filter
          (timeline.now < ·)).min? := by
  obtain ⟨start, prompt, finished, visitors, -⟩ := single.patient
  have nobody : timeline.callDue 0 = [] := by
    rw [callDue, visitor, visitors, single.session]
    rfl
  have turn : timeline.turnDue? = phase.due? timeline.answerAt := by
    rw [turnDue?, single.session]
    cases phase <;> rfl
  have length : timeline.session.calls.length = 1 := by rw [single.session]; rfl
  rw [nextMoment?, length, turn]
  change List.min? (List.filter _ ((timeline.callDue 0 ++ []) ++ _ ++ _)) = _
  rw [nobody]
  rfl

/-- Two requests at the same point behind the start of their generators. -/
structure Twins (creator : Creator) (job other : Job) (phase : Phase) (timeline : Timeline σ)
    (guise : Guise) : Prop where
  behind : phase.isBehindStart = true
  left : Single creator job phase.state timeline
  right : Single creator other phase.state (timeline.inGuise guise)

theorem Single.state_eq {state reached : CallState} (single : Single creator job state timeline)
    (session : timeline.session = .single creator job reached)
    : state = reached :=
  congrArg (fun session => session.state 0) (single.session.symm.trans session)

/-- Behind the start of the generator a reply leaves the record and the prompt as they are. -/
theorem Replies.onward {dialect : Dialect} {reply : Reply} (behind : phase.isBehindStart = true)
    (replies : Replies world timeline 0 dialect phase next reply)
    : Onward timeline next := by
  cases replies with
  | goes => cases behind
  | answers => cases behind
  | dispatches => cases behind
  | searches | looks | rests | expires => exact .of_same rfl rfl

/-- Twins are so again after a step of both. -/
theorem Twins.step (twins : Twins creator job other phase timeline guise)
    (stepped : timeline.step? world = some next)
    : ∃ reached after, (timeline.inGuise guise).step? world = some (next.inGuise after)
        ∧ Twins creator job other reached next after ∧ Onward timeline next := by
  -- once both steps are known, only the phase is left to be told from the sessions
  have again {reached : Phase} {after : Guise} (behind : reached.isBehindStart = true)
      (session : next.session = .single creator job reached.state)
      (session' : after.session = .single creator other reached.state)
      (stepped' : (timeline.inGuise guise).step? world = some (next.inGuise after))
      : Twins creator job other reached next after := by
    obtain ⟨state, -, left⟩ := twins.left.step stepped
    obtain ⟨state', -, right⟩ := twins.right.step stepped'
    obtain rfl := left.state_eq session
    obtain rfl := right.state_eq session'
    exact ⟨behind, left, right⟩
  have open' (outcome : Except CreationError CreatedRoute) : phase ≠ .settled outcome := by
    rintro rfl
    rw [step?, if_pos (twins.left.isOver_iff.mpr ⟨outcome, rfl⟩)] at stepped
    cases stepped
  obtain ⟨behind, left, right⟩ := twins
  have still := left.session
  have still' : guise.session = _ := right.session
  rw [Phase.state_of_open open'] at left right
  have steps := right.step_active world
  rw [right.nextMoment_active] at steps
  rw [left.step_active world, left.nextMoment_active] at stepped
  have replies := replyIn_inGuise world timeline guise behind job.dialect other.dialect
  rw [replies] at steps
  split at stepped
  case isTrue early =>
    rw [if_pos (show (timeline.inGuise guise).cursor < 1 from early)] at steps
    cases replied : timeline.replyIn world 0 job.dialect phase with
    | none =>
        rw [replied] at steps stepped
        obtain rfl := Option.some.inj stepped
        exact ⟨phase, guise, steps, again behind still still' steps, .of_same rfl rfl⟩
    | some answer =>
        obtain ⟨middle, reply⟩ := answer
        rw [replied] at steps stepped
        obtain rfl := Option.some.inj stepped
        have came := replies_of_replyIn replied
        obtain ⟨same, stays, quiet⟩ :=
          creator.react_behindStart (world.tree middle.world) middle.now behind reply job
        have acts := @Session.step_single_deliver creator job (.active phase) phase (.inr rfl)
          (world.tree middle.world) middle.now reply
        have acts' := @Session.step_single_deliver creator other (.active phase) phase (.inr rfl)
          (world.tree middle.world) middle.now reply
        rw [← left.session, ← came.keeps.session] at acts
        rw [← same other, ← right.session] at acts'
        obtain ⟨after, performs, session'⟩ := perform_inGuise acts quiet acts'
        have steps' := steps.trans (congrArg some performs)
        exact ⟨_, after, steps', again stays (heeds_perform acts).session session' steps',
          (came.onward behind).trans (onward_perform acts quiet)⟩
  case isFalse late =>
    rw [if_neg (show ¬ (timeline.inGuise guise).cursor < 1 from late)] at steps
    split at stepped
    case isTrue moved =>
      rw [if_pos (show (timeline.inGuise guise).moved = true from moved)] at steps
      obtain rfl := Option.some.inj stepped
      exact ⟨phase, guise, steps, again behind still still' steps, .of_same rfl rfl⟩
    case isFalse unmoved =>
      rw [if_neg (show ¬ (timeline.inGuise guise).moved = true from unmoved)] at steps
      obtain ⟨moment, due, rfl⟩ := Option.map_eq_some_iff.mp stepped
      have steps' := steps.trans
        (congrArg (Option.map ((timeline.inGuise guise).passing world)) due)
      refine ⟨phase,
        { guise with notes := (world.advance moment timeline.world).2.reverse ++ guise.notes },
        steps', again behind still still' steps', .of_same rfl rfl⟩

/-- Twins come to the same end, by induction on the steps. -/
theorem Twins.ends {last : Timeline σ} (twins : Twins creator job other phase timeline guise)
    (ends : Ends world timeline last)
    : ∃ reached after, Ends world (timeline.inGuise guise) (last.inGuise after)
        ∧ Twins creator job other reached last after ∧ Onward timeline last := by
  obtain ⟨steps, runs, ended⟩ := ends
  induction steps generalizing timeline phase guise with
  | zero =>
      subst runs
      obtain ⟨outcome, settled⟩ := twins.left.settled_of_step ended
      have ended' : (timeline.inGuise guise).step? world = none := by
        rw [step?, if_pos (twins.right.isOver_iff.mpr ⟨outcome, settled⟩)]
      exact ⟨phase, guise, ⟨0, rfl, ended'⟩, twins, .of_same rfl rfl⟩
  | succ steps ih =>
      cases stepped : timeline.step? world with
      | none =>
          rw [run_of_step_eq_none stepped] at runs
          exact ih twins ((run_of_step_eq_none stepped steps).trans runs)
      | some next =>
          rw [run, stepped] at runs
          obtain ⟨reached, after, stepped', twins, onward⟩ := twins.step stepped
          obtain ⟨reached, after, ends, twins, later⟩ := ih twins runs
          exact ⟨reached, after, ends.of_step stepped', twins, onward.trans later⟩

/-- Twins that have come to their end have got a route, or have waited too long for it, and one of
them no less than the other.
-/
theorem Twins.outcome_eq (twins : Twins creator job other phase timeline guise)
    (ended : timeline.step? world = none)
    : ∃ outcome, timeline.outcome? 0 = some outcome
        ∧ (timeline.inGuise guise).outcome? 0 = some outcome
        ∧ (Phase.settled outcome).isBehindStart = true := by
  obtain ⟨outcome, settled⟩ := twins.left.settled_of_step ended
  have reached : phase = .settled outcome := by
    cases phase <;> cases settled
    rfl
  refine ⟨outcome, ?_, ?_, reached ▸ twins.behind⟩
  · rw [outcome?, twins.left.session, settled]
    rfl
  · rw [outcome?, twins.right.session, settled]
    rfl

end

end Timeline

end RouteDesk
