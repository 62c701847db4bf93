import RouteDesk.Creation.Request

/-! Requests for new routes in one workspace. They take turns: callers stand in a line in the
order in which they came, the first one holds the turn, and whoever settles or is dropped
leaves the line.
-/

namespace RouteDesk

/-- How far a request has come. -/
inductive CallState where
  | absent
  | queued
  | active (phase : Phase)
  | settled (outcome : Except CreationError CreatedRoute)
  | dropped

/-- A request and how far it has come. -/
structure Call where
  job : Job
  state : CallState := .absent

/-- Whether nothing more can come of a request. -/
def CallState.isOver : CallState → Bool
  | .settled _ | .dropped => true
  | _ => false

/-- Requests in one workspace, and the line of those that wait or have the turn. -/
structure Session where
  creator : Creator
  calls : List Call
  line : List Nat := []

/-- What can happen in a session. -/
inductive Action where
  /-- A request comes and asks for its turn. -/
  | arrive (caller : Nat)
  /-- A reply comes for a request. -/
  | deliver (caller : Nat) (reply : Reply)
  /-- A request is dropped, whatever it was doing. -/
  | drop (caller : Nat)

namespace Session

/-- How far a request has come. -/
def state (session : Session) (caller : Nat) : CallState :=
  (session.calls[caller]?.map Call.state).getD .absent

/-- The session with another state for a request. -/
def withState (session : Session) (caller : Nat) (state : CallState) : Session :=
  { session with calls := session.calls.modify caller fun call => { call with state } }

/-- The session without a request in the line. -/
def leave (session : Session) (caller : Nat) : Session :=
  { session with line := session.line.erase caller }

/-- Whether it is the request's turn. -/
def holdsTurn (session : Session) (caller : Nat) : Bool :=
  session.line.head? == some caller

/-- What a reply does to a request that has the turn. -/
def onReply (session : Session) (tree : FileTree) (now caller : Nat) (job : Job)
    (phase : Phase) (reply : Reply)
    : Session × List Event × Log :=
  let reaction := session.creator.react tree now job phase reply
  let next :=
    match reaction.phase with
    | .settled outcome => (session.withState caller (.settled outcome)).leave caller
    | phase => session.withState caller (.active phase)
  (next, reaction.events, reaction.log)

/-- What an action does, and what happens between the request and its surroundings. -/
def step (session : Session) (tree : FileTree) (now : Nat) (action : Action)
    : Session × List Event × Log :=
  match action with
  | .arrive caller =>
    match session.calls[caller]? with
    | some ⟨_, .absent⟩ =>
      let queued := session.withState caller .queued
      ({ queued with line := queued.line ++ [caller] }, [], [])
    | _ => (session, [], [])
  | .drop caller =>
    match session.calls[caller]? with
    | some ⟨_, .queued⟩ | some ⟨_, .active _⟩ =>
      ((session.withState caller .dropped).leave caller, [], [])
    | some ⟨_, .absent⟩ => (session.withState caller .dropped, [], [])
    | _ => (session, [], [])
  | .deliver caller reply =>
    if session.holdsTurn caller then
      match session.calls[caller]? with
      | some ⟨job, .queued⟩ => session.onReply tree now caller job .ready reply
      | some ⟨job, .active phase⟩ => session.onReply tree now caller job phase reply
      | _ => (session, [], [])
    else (session, [], [])

end Session

end RouteDesk
