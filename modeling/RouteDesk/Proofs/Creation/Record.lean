import RouteDesk.Creation.Session
import Mathlib.Tactic

/-! What can happen to requests in one workspace, whatever they work with: a record takes down
every event of a session under any actions, at any moments and with any files there, and who
came and who had the turn. What holds of every record is proved once for each kind of move.
-/

namespace RouteDesk

/-- How far a request in a phase has come. -/
def Phase.state : Phase → CallState
  | .settled outcome => .settled outcome
  | phase => .active phase

theorem Phase.state_of_open {phase : Phase} (open' : ∀ outcome, phase ≠ .settled outcome)
    : phase.state = .active phase := by
  cases phase with
  | settled outcome => exact absurd rfl (open' outcome)
  | _ => rfl

namespace Session

/-- The requests before anyone has come. -/
def opening (creator : Creator) (jobs : List Job) : Session :=
  { creator, calls := jobs.map fun job => { job } }

/-- Who asks for the turn by an action: a request that was not there before. -/
def joining (session : Session) : Action → List Nat
  | .arrive caller =>
    match session.calls[caller]? with
    | some ⟨_, .absent⟩ => [caller]
    | _ => []
  | _ => []

-----------------------------------------------------------------------------------------
-- The moves of a session
-----------------------------------------------------------------------------------------

/-- What a step does to a session, and the events that it makes. -/
inductive Moves (session : Session) (tree : FileTree) (now : Nat)
    : Action → Session → List Event → Prop
  /-- The action means nothing here. -/
  | idle {action : Action} (nobody : session.joining action = [])
    : Moves session tree now action session []
  /-- A request gets into the line. -/
  | joins {caller : Nat} {job : Job} (absent : session.calls[caller]? = some ⟨job, .absent⟩)
    : Moves session tree now (.arrive caller)
        { session.withState caller .queued with line := session.line ++ [caller] } []
  /-- A request is dropped before it has asked for its turn. -/
  | quits {caller : Nat} {job : Job} (absent : session.calls[caller]? = some ⟨job, .absent⟩)
    : Moves session tree now (.drop caller) (session.withState caller .dropped) []
  /-- A request in the line is dropped. -/
  | abandons {caller : Nat} {job : Job} {state : CallState}
    (present : session.calls[caller]? = some ⟨job, state⟩)
    (begun : state = .queued ∨ ∃ phase, state = .active phase)
    : Moves session tree now (.drop caller) ((session.withState caller .dropped).leave caller) []
  /-- A request that has the turn gets a reply and goes on. -/
  | goesOn {caller : Nat} {job : Job} {state : CallState} {phase : Phase} {reply : Reply}
    (present : session.calls[caller]? = some ⟨job, state⟩)
    (begun : state = .queued ∧ phase = .ready ∨ state = .active phase)
    (turn : session.line.head? = some caller)
    (open' : ∀ outcome, (session.creator.react tree now job phase reply).phase ≠ .settled outcome)
    : Moves session tree now (.deliver caller reply)
        (session.withState caller
          (.active (session.creator.react tree now job phase reply).phase))
        (session.creator.react tree now job phase reply).events
  /-- A request that has the turn gets a reply and settles. -/
  | settles {caller : Nat} {job : Job} {state : CallState} {phase : Phase} {reply : Reply}
    {outcome : Except CreationError CreatedRoute}
    (present : session.calls[caller]? = some ⟨job, state⟩)
    (begun : state = .queued ∧ phase = .ready ∨ state = .active phase)
    (turn : session.line.head? = some caller)
    (settled : (session.creator.react tree now job phase reply).phase = .settled outcome)
    : Moves session tree now (.deliver caller reply)
        ((session.withState caller (.settled outcome)).leave caller)
        (session.creator.react tree now job phase reply).events

theorem moves_onReply {session : Session} {tree : FileTree} {now caller : Nat} {job : Job}
    {state : CallState} {phase : Phase} {reply : Reply}
    (present : session.calls[caller]? = some ⟨job, state⟩)
    (begun : state = .queued ∧ phase = .ready ∨ state = .active phase)
    (turn : session.line.head? = some caller)
    : Moves session tree now (.deliver caller reply)
        (session.onReply tree now caller job phase reply).1
        (session.onReply tree now caller job phase reply).2.1 := by
  unfold onReply
  dsimp only
  split
  case h_1 outcome settled => exact .settles present begun turn settled
  case h_2 open' => exact .goesOn present begun turn open'

section

variable {session : Session} {tree : FileTree} {now caller : Nat} {job : Job} {state : CallState}
  {phase : Phase} {reply : Reply} (present : session.calls[caller]? = some ⟨job, state⟩)
  (begun : state = .queued ∧ phase = .ready ∨ state = .active phase)
  (turn : session.line.head? = some caller)

include present begun turn

theorem step_deliver
    : session.step tree now (.deliver caller reply)
      = session.onReply tree now caller job phase reply := by
  have holds : session.holdsTurn caller = true := by simpa [holdsTurn] using turn
  rcases begun with ⟨rfl, rfl⟩ | rfl <;> simp [step, holds, present]

/-- A reply moves on the request that has the turn. -/
theorem step_goesOn {next : Phase}
    (goes : (session.creator.react tree now job phase reply).phase = next)
    (open' : ∀ outcome, next ≠ .settled outcome)
    : session.step tree now (.deliver caller reply)
      = (session.withState caller (.active next),
          (session.creator.react tree now job phase reply).events,
          (session.creator.react tree now job phase reply).log) := by
  rw [step_deliver present begun turn, onReply, goes]
  cases next with
  | settled outcome => exact absurd rfl (open' outcome)
  | _ => rfl

theorem step_settles {outcome : Except CreationError CreatedRoute}
    (settles : (session.creator.react tree now job phase reply).phase = .settled outcome)
    : session.step tree now (.deliver caller reply)
      = ((session.withState caller (.settled outcome)).leave caller,
          (session.creator.react tree now job phase reply).events,
          (session.creator.react tree now job phase reply).log) := by
  rw [step_deliver present begun turn, onReply, settles]

end

/-- Every step is one of the moves. -/
theorem moves_step (session : Session) (tree : FileTree) (now : Nat) (action : Action)
    : Moves session tree now action (session.step tree now action).1
        (session.step tree now action).2.1 := by
  cases action with
  | arrive caller =>
      unfold step
      dsimp only
      split
      case h_1 job absent => exact .joins absent
      case h_2 passed =>
        refine .idle ?_
        rw [joining]
        split
        case h_1 job absent => exact absurd absent (passed job)
        case h_2 => rfl
  | drop caller =>
      unfold step
      dsimp only
      split
      case h_1 job waiting => exact .abandons waiting (.inl rfl)
      case h_2 job phase active => exact .abandons active (.inr ⟨phase, rfl⟩)
      case h_3 job absent => exact .quits absent
      case h_4 => exact .idle rfl
  | deliver caller reply =>
      unfold step
      dsimp only
      split
      case isTrue holds =>
        have turn : session.line.head? = some caller := by simpa [holdsTurn] using holds
        split
        case h_1 job waiting => exact moves_onReply waiting (.inl ⟨rfl, rfl⟩) turn
        case h_2 job phase active => exact moves_onReply active (.inr rfl) turn
        case h_3 => exact .idle rfl
      case isFalse => exact .idle rfl

-----------------------------------------------------------------------------------------
-- How far requests have come
-----------------------------------------------------------------------------------------

theorem getElem?_withState (session : Session) (caller other : Nat) (state : CallState)
    : (session.withState caller state).calls[other]?
      = if caller = other then session.calls[other]?.map fun call => { call with state }
        else session.calls[other]? := by
  rw [withState, List.getElem?_modify]
  split <;> simp

theorem state_of_getElem? {session : Session} {caller : Nat} {job : Job} {state : CallState}
    (present : session.calls[caller]? = some ⟨job, state⟩)
    : session.state caller = state := by
  rw [Session.state, present]
  rfl

theorem state_withState_self {session : Session} {caller : Nat} {job : Job}
    {former : CallState} (present : session.calls[caller]? = some ⟨job, former⟩)
    (state : CallState)
    : (session.withState caller state).state caller = state := by
  rw [Session.state, getElem?_withState, if_pos rfl, present]
  rfl

theorem getElem?_withState_self {session : Session} {caller : Nat} {job : Job}
    {former : CallState} (present : session.calls[caller]? = some ⟨job, former⟩)
    (state : CallState)
    : (session.withState caller state).calls[caller]? = some ⟨job, state⟩ := by
  rw [getElem?_withState, if_pos rfl, present]
  rfl

theorem withState_withState (session : Session) (caller : Nat) (former state : CallState)
    : (session.withState caller former).withState caller state
      = session.withState caller state := by
  simp only [withState, List.modify_modify_eq]
  rfl

theorem state_withState_of_ne {caller other : Nat} (different : other ≠ caller)
    (session : Session) (state : CallState)
    : (session.withState caller state).state other = session.state other := by
  rw [Session.state, getElem?_withState, if_neg (Ne.symm different), Session.state]

/-- A request keeps its job. -/
def job? (session : Session) (caller : Nat) : Option Job :=
  session.calls[caller]?.map Call.job

theorem job?_withState (session : Session) (caller other : Nat) (state : CallState)
    : (session.withState caller state).job? other = session.job? other := by
  rw [job?, getElem?_withState, job?]
  split
  · cases session.calls[other]? <;> rfl
  · rfl

/-- No move changes what was asked for, or what routes are created with. -/
theorem Moves.keeps {session next : Session} {tree : FileTree} {now : Nat} {action : Action}
    {events : List Event} (moves : Moves session tree now action next events)
    : (∀ caller, next.job? caller = session.job? caller) ∧ next.creator = session.creator := by
  cases moves with
  | idle => exact ⟨fun _ => rfl, rfl⟩
  | _ => exact ⟨fun _ => job?_withState _ _ _ _, rfl⟩

end Session

-----------------------------------------------------------------------------------------
-- Records
-----------------------------------------------------------------------------------------

/-- An action, with the files that there are and the moment. -/
structure Occasion where
  tree : FileTree
  now : Nat
  action : Action

/-- An event of a request, with the files that there were and the moment. -/
structure Happening where
  tree : FileTree
  now : Nat
  caller : Nat
  event : Event

/-- Whose action it is. -/
def Action.caller : Action → Nat
  | .arrive caller | .deliver caller _ | .drop caller => caller

/-- Events come only of a reply for the request that has the turn. -/
theorem Session.Moves.turn_of_mem {session next : Session} {tree : FileTree} {now : Nat}
    {action : Action} {events : List Event} (moves : Moves session tree now action next events)
    {event : Event} (member : event ∈ events)
    : session.line.head? = some action.caller := by
  cases moves with
  | goesOn present begun turn => exact turn
  | settles present begun turn => exact turn
  | _ => cases member

/-- A move changes how far nobody but the one that it is about has come. -/
theorem Session.Moves.state_of_ne {session next : Session} {tree : FileTree} {now : Nat}
    {action : Action} {events : List Event} (moves : Moves session tree now action next events)
    {caller : Nat} (other : caller ≠ action.caller)
    : next.state caller = session.state caller := by
  cases moves with
  | idle => rfl
  | _ => exact state_withState_of_ne other _ _

/-- A session and what has come of it. -/
structure Record where
  session : Session
  /-- Every event, in order. -/
  trace : List Happening := []
  /-- Who has asked for the turn, in order. -/
  arrivals : List Nat := []
  /-- Who has had the turn, in order; the last one may still have it. -/
  turns : List Nat := []

namespace Record

/-- The record after an occasion. Whoever has come to the front of the line has a turn. -/
def extend (record : Record) (occasion : Occasion) : Record :=
  let (next, events, _) := record.session.step occasion.tree occasion.now occasion.action
  { session := next
    trace := record.trace ++ events.map
      (Happening.mk occasion.tree occasion.now occasion.action.caller)
    arrivals := record.arrivals ++ record.session.joining occasion.action
    turns :=
      if next.line.head? = record.session.line.head? then record.turns
      else record.turns ++ next.line.head?.toList }

/-- The record of requests from the beginning on. -/
def of (creator : Creator) (jobs : List Job) (occasions : List Occasion) : Record :=
  occasions.foldl extend { session := .opening creator jobs }

/-- The events of one request. -/
def own (record : Record) (caller : Nat) : List Happening :=
  record.trace.filter (·.caller == caller)

theorem own_events (events : List Event) (tree : FileTree) (now doer caller : Nat)
    : (events.map (Happening.mk tree now doer)).filter (·.caller == caller)
      = if doer = caller then events.map (Happening.mk tree now doer) else [] := by
  split
  case isTrue same => simp [List.filter_eq_self, same]
  case isFalse different => simp [List.filter_eq_nil_iff, different]

theorem own_extend (record : Record) (occasion : Occasion) (caller : Nat)
    : (record.extend occasion).own caller
      = record.own caller
        ++ if occasion.action.caller = caller then
            (record.session.step occasion.tree occasion.now occasion.action).2.1.map
              (Happening.mk occasion.tree occasion.now occasion.action.caller)
          else [] := by
  rw [← own_events]
  exact List.filter_append _ _

/-- An occasion changes nothing for those that it is not about. -/
theorem extend_of_ne (record : Record) {occasion : Occasion} {caller : Nat}
    (other : caller ≠ occasion.action.caller)
    : (record.extend occasion).session.state caller = record.session.state caller
      ∧ (record.extend occasion).own caller = record.own caller := by
  refine ⟨(Session.moves_step _ _ _ _).state_of_ne other, ?_⟩
  rw [own_extend, if_neg (Ne.symm other), List.append_nil]

/-- What an occasion does to one request, and the events that it makes. -/
inductive Undergoes (creator : Creator) (caller : Nat) (job : Job) (occasion : Occasion)
    : CallState → CallState → List Event → Prop
  | stays {state : CallState} : Undergoes creator caller job occasion state state []
  | joins : Undergoes creator caller job occasion .absent .queued []
  | drops {state : CallState} (going : state.isOver = false)
    : Undergoes creator caller job occasion state .dropped []
  | moves {state : CallState} {phase : Phase} {reply : Reply}
    (delivers : occasion.action = .deliver caller reply)
    (begun : state = .queued ∧ phase = .ready ∨ state = .active phase)
    : Undergoes creator caller job occasion state
        (creator.react occasion.tree occasion.now job phase reply).phase.state
        (creator.react occasion.tree occasion.now job phase reply).events

/-- Of all moves a request undergoes only those that are about it. -/
theorem undergoes_extend (record : Record) (occasion : Occasion) {caller : Nat} {job : Job}
    (known : record.session.job? caller = some job)
    : ∃ events,
        Undergoes record.session.creator caller job occasion (record.session.state caller)
          ((record.extend occasion).session.state caller) events
          ∧ (record.extend occasion).own caller
            = record.own caller
              ++ events.map (Happening.mk occasion.tree occasion.now caller) := by
  by_cases about : occasion.action.caller = caller
  case neg =>
    obtain ⟨state, own⟩ := extend_of_ne record (Ne.symm about)
    rw [state, own]
    exact ⟨[], .stays, (List.append_nil _).symm⟩
  have moves := Session.moves_step record.session occasion.tree occasion.now occasion.action
  rw [own_extend, if_pos about, about]
  change ∃ events, Undergoes _ _ _ _ _
    ((record.session.step occasion.tree occasion.now occasion.action).1.state caller) _ ∧ _
  generalize record.session.step occasion.tree occasion.now occasion.action = result at moves ⊢
  obtain ⟨next, events, log⟩ := result
  obtain ⟨tree, now, action⟩ := occasion
  dsimp only at moves ⊢
  change action.caller = caller at about
  have same {former : Job} {state : CallState}
      (present : record.session.calls[caller]? = some ⟨former, state⟩)
      : former = job := by
    rw [Session.job?, present] at known
    exact Option.some.inj known
  refine ⟨events, ?_, rfl⟩
  cases moves with
  | idle nobody => exact .stays
  | @joins doer former absent =>
      obtain rfl : doer = caller := about
      rw [Session.state_of_getElem? absent]
      change Undergoes _ _ _ _ _ (Session.state (Session.withState _ _ _) _) _
      rw [Session.state_withState_self absent]
      exact .joins
  | @quits doer former absent =>
      obtain rfl : doer = caller := about
      rw [Session.state_of_getElem? absent, Session.state_withState_self absent]
      exact .drops rfl
  | @abandons doer former state present begun =>
      obtain rfl : doer = caller := about
      change Undergoes _ _ _ _ _ (Session.state (Session.withState _ _ _) _) _
      rw [Session.state_of_getElem? present, Session.state_withState_self present]
      refine .drops ?_
      rcases begun with rfl | ⟨phase, rfl⟩ <;> rfl
  | @goesOn doer former state phase reply present begun turn open' =>
      obtain rfl : doer = caller := about
      rw [same present] at open'
      rw [Session.state_of_getElem? present, Session.state_withState_self present, same present,
        ← Phase.state_of_open open']
      exact .moves rfl begun
  | @settles doer former state phase reply outcome present begun turn settled =>
      obtain rfl : doer = caller := about
      change Undergoes _ _ _ _ _ (Session.state (Session.withState _ _ _) _) _
      rw [same present] at settled
      have over' := congrArg Phase.state settled
      rw [Session.state_of_getElem? present, Session.state_withState_self present, same present,
        ← show Phase.state (.settled outcome) = .settled outcome from rfl, ← over']
      exact .moves rfl begun

/-- What holds at the beginning and is preserved by every move holds of every record, by
induction on the occasions.
-/
theorem of_induction {invariant : Record → Prop} {creator : Creator} {jobs : List Job}
    (start : invariant { session := .opening creator jobs })
    (step : ∀ record occasion, invariant record → invariant (record.extend occasion))
    (occasions : List Occasion)
    : invariant (of creator jobs occasions) := by
  unfold of
  generalize ({ session := .opening creator jobs } : Record) = record at start
  induction occasions generalizing record with
  | nil => exact start
  | cons occasion rest ih => exact ih _ (step record occasion start)

theorem of_append (creator : Creator) (jobs : List Job) (occasions later : List Occasion)
    : of creator jobs (occasions ++ later) = later.foldl extend (of creator jobs occasions) :=
  List.foldl_append

end Record

end RouteDesk
