import RouteDesk.Proofs.Creation.Record

/-! Requests take turns. In every record the turn is held by the first one, in the order in which
they asked for it, that has neither settled nor been dropped; and the events of the record are
those of one request after the other, in the order of their turns.
-/

namespace RouteDesk.Record

/-- What carries the order of turns through every move. -/
structure Orderly (record : Record) : Prop where
  line : record.session.line
    = record.arrivals.filter fun caller => !(record.session.state caller).isOver
  distinct : record.arrivals.Nodup
  absent (caller : Nat) (unseen : record.session.state caller = .absent)
    : caller ∉ record.arrivals
  queued (caller : Nat) (waiting : record.session.state caller = .queued)
    : caller ∈ record.arrivals
  order : (record.turns ++ record.session.line.tail).Sublist record.arrivals
  holder (caller : Nat) (turn : record.session.line.head? = some caller)
    : record.turns.getLast? = some caller
  ended (caller : Nat) (had : caller ∈ record.turns)
    : record.session.line.head? = some caller ∨ (record.session.state caller).isOver = true
  had (caller : Nat)
    (begun : (∃ phase, record.session.state caller = .active phase)
      ∨ ∃ outcome, record.session.state caller = .settled outcome)
    : caller ∈ record.turns
  own : record.trace = record.turns.flatMap record.own

namespace Orderly

variable {record : Record}

theorem distinctLine (orderly : Orderly record)
    : record.session.line.Nodup :=
  orderly.line ▸ orderly.distinct.filter _

theorem distinctTurns (orderly : Orderly record)
    : (record.turns ++ record.session.line.tail).Nodup :=
  orderly.order.nodup orderly.distinct

/-- Whoever has turned up in the trace has had a turn. -/
theorem mem_turns_of_mem_trace (orderly : Orderly record) {happening : Happening}
    (member : happening ∈ record.trace)
    : happening.caller ∈ record.turns := by
  rw [orderly.own] at member
  obtain ⟨caller, among, owned⟩ := List.mem_flatMap.mp member
  have same := (List.mem_filter.mp owned).2
  rw [eq_of_beq same]
  exact among

theorem own_eq_nil (orderly : Orderly record) {caller : Nat} (never : caller ∉ record.turns)
    : record.own caller = [] := by
  rw [Record.own, List.filter_eq_nil_iff]
  intro happening member same
  exact never (eq_of_beq same ▸ orderly.mem_turns_of_mem_trace member)

theorem state_opening (creator : Creator) (jobs : List Job) (caller : Nat)
    : (Session.opening creator jobs).state caller = .absent := by
  rw [Session.state, Session.opening, List.getElem?_map]
  cases jobs[caller]? <;> rfl

theorem opening (creator : Creator) (jobs : List Job)
    : Orderly { session := .opening creator jobs } where
  line := rfl
  distinct := .nil
  absent _ _ := List.not_mem_nil
  queued caller waiting := by
    rw [state_opening] at waiting
    cases waiting
  order := List.Sublist.refl []
  holder _ turn := by cases turn
  ended _ had := by cases had
  had caller begun := by
    rw [state_opening] at begun
    rcases begun with ⟨_, same⟩ | ⟨_, same⟩ <;> cases same
  own := rfl

-----------------------------------------------------------------------------------------
-- The trace of a move
-----------------------------------------------------------------------------------------

/-- Events of the last one that had a turn end the trace, as those of all others come before. -/
theorem trace_append (orderly : Orderly record) {new : List Happening}
    (holders : ∀ happening ∈ new, record.session.line.head? = some happening.caller)
    : record.trace ++ new
      = record.turns.flatMap fun caller => (record.trace ++ new).filter (·.caller == caller) := by
  cases new with
  | nil =>
      simp only [List.append_nil]
      exact orderly.own
  | cons happening rest =>
      have head := holders happening List.mem_cons_self
      obtain ⟨front, turns⟩ :=
        List.getLast?_eq_some_iff.mp (orderly.holder happening.caller head)
      have same (other : Happening) (member : other ∈ happening :: rest)
          : other.caller = happening.caller :=
        Option.some.inj ((holders other member).symm.trans head)
      have distinct := (List.nodup_append.mp orderly.distinctTurns).1
      rw [turns] at distinct ⊢
      have before (caller : Nat) (among : caller ∈ front)
          : (record.trace ++ happening :: rest).filter (·.caller == caller)
            = record.own caller := by
        have different : caller ≠ happening.caller :=
          (List.nodup_append.mp distinct).2.2 caller among _ List.mem_cons_self
        have nothing : (happening :: rest).filter (·.caller == caller) = [] := by
          rw [List.filter_eq_nil_iff]
          intro other member equal
          exact different ((eq_of_beq equal).symm.trans (same other member))
        rw [List.filter_append, nothing, List.append_nil, Record.own]
      have last : (record.trace ++ happening :: rest).filter (·.caller == happening.caller)
          = record.own happening.caller ++ happening :: rest := by
        have everything : (happening :: rest).filter (·.caller == happening.caller)
            = happening :: rest :=
          List.filter_eq_self.mpr fun other member => beq_iff_eq.mpr (same other member)
        rw [List.filter_append, everything, Record.own]
      rw [List.flatMap_append, List.flatMap_congr before, List.flatMap_singleton, last,
        ← List.append_assoc, ← List.flatMap_singleton record.own, ← List.flatMap_append, ← turns,
        ← orderly.own]

/-- Whoever has a turn for the first time has no events before it. -/
theorem trace_append_turn (orderly : Orderly record) {new : List Happening}
    (holders : ∀ happening ∈ new, record.session.line.head? = some happening.caller)
    {caller : Nat} (never : caller ∉ record.turns)
    : record.trace ++ new
      = (record.turns ++ [caller]).flatMap fun caller =>
          (record.trace ++ new).filter (·.caller == caller) := by
  have nothing : (record.trace ++ new).filter (·.caller == caller) = [] := by
    rw [List.filter_append, ← Record.own, orderly.own_eq_nil never, List.nil_append,
      List.filter_eq_nil_iff]
    intro happening member same
    refine never (List.mem_of_getLast? (orderly.holder caller ?_))
    exact eq_of_beq same ▸ holders happening member
  rw [List.flatMap_append, ← orderly.trace_append holders, List.flatMap_singleton, nothing,
    List.append_nil]

-----------------------------------------------------------------------------------------
-- The turns after a move
-----------------------------------------------------------------------------------------

/-- The turns after a move: whoever is at the front has one, if somebody else was before. -/
def turnsAfter (record : Record) (next : Session) : List Nat :=
  if next.line.head? = record.session.line.head? then record.turns
  else record.turns ++ next.line.head?.toList

theorem turnsAfter_of_eq {next : Session}
    (same : next.line.head? = record.session.line.head?)
    : turnsAfter record next = record.turns :=
  if_pos same

theorem turnsAfter_of_ne {next : Session}
    (passes : next.line.head? ≠ record.session.line.head?)
    : turnsAfter record next = record.turns ++ next.line.head?.toList :=
  if_neg passes

/-- Nobody's turn is forgotten. -/
theorem turns_prefix_turnsAfter (record : Record) (next : Session)
    : record.turns <+: turnsAfter record next := by
  unfold turnsAfter
  split
  · exact List.prefix_rfl
  · exact List.prefix_append _ _

theorem mem_turnsAfter {next : Session} {caller : Nat} (had : caller ∈ turnsAfter record next)
    : caller ∈ record.turns ∨ next.line.head? = some caller := by
  unfold turnsAfter at had
  split at had
  · exact .inl had
  · rcases List.mem_append.mp had with before | front
    · exact .inl before
    · exact .inr (Option.mem_toList.mp front)

/-- A turn that passes goes to the front, so that the line is added to the turns as a whole. -/
theorem turnsAfter_append_tail {next : Session}
    (passes : next.line.head? ≠ record.session.line.head?)
    : turnsAfter record next ++ next.line.tail = record.turns ++ next.line := by
  rw [turnsAfter_of_ne passes, List.append_assoc]
  cases next.line <;> rfl

/-- Turns stay in order over a move that passes the turn only to somebody who has not had it,
and only from somebody who is over then.
-/
theorem passes (orderly : Orderly record) {next : Session} {new : List Happening}
    {arrivals : List Nat}
    (line : next.line = arrivals.filter fun caller => !(next.state caller).isOver)
    (distinct : arrivals.Nodup)
    (absent : ∀ caller, next.state caller = .absent → caller ∉ arrivals)
    (queued : ∀ caller, next.state caller = .queued → caller ∈ arrivals)
    (had : ∀ caller, ((∃ phase, next.state caller = .active phase)
      ∨ ∃ outcome, next.state caller = .settled outcome) → caller ∈ record.turns)
    (order : (turnsAfter record next ++ next.line.tail).Sublist arrivals)
    (front : ∀ caller, next.line.head? = some caller →
      record.session.line.head? = some caller ∨ caller ∉ record.turns)
    (ended : ∀ caller ∈ record.turns,
      next.line.head? = some caller ∨ (next.state caller).isOver = true)
    (holders : ∀ happening ∈ new, record.session.line.head? = some happening.caller)
    : Orderly ⟨next, record.trace ++ new, arrivals, turnsAfter record next⟩ where
  line := line
  distinct := distinct
  absent := absent
  queued := queued
  order := order
  holder caller turn := by
    change (turnsAfter record next).getLast? = some caller
    change next.line.head? = some caller at turn
    by_cases same : next.line.head? = record.session.line.head?
    · rw [turnsAfter_of_eq same]
      exact orderly.holder caller (same ▸ turn)
    · rw [turnsAfter_of_ne same, turn]
      exact List.getLast?_concat
  ended caller before := (mem_turnsAfter before).elim (ended caller) .inl
  had caller further := (turns_prefix_turnsAfter record next).subset (had caller further)
  own := by
    change record.trace ++ new = (turnsAfter record next).flatMap _
    by_cases same : next.line.head? = record.session.line.head?
    · rw [turnsAfter_of_eq same]
      exact orderly.trace_append holders
    · rw [turnsAfter_of_ne same]
      cases turn : next.line.head? with
      | none =>
          rw [Option.toList_none, List.append_nil]
          exact orderly.trace_append holders
      | some caller =>
          have never : caller ∉ record.turns := (front caller turn).resolve_left fun head =>
            same (turn.trans head.symm)
          exact orderly.trace_append_turn holders never

-----------------------------------------------------------------------------------------
-- Moves
-----------------------------------------------------------------------------------------

/-- A move that leaves the line as it is. Nobody in it is over then who was not before. -/
theorem stays (orderly : Orderly record) {next : Session} {new : List Happening}
    (line : next.line = record.session.line)
    (finished : ∀ caller ∈ record.arrivals,
      (next.state caller).isOver = (record.session.state caller).isOver)
    (absent : ∀ caller, next.state caller = .absent → record.session.state caller = .absent)
    (begun : ∀ caller, next.state caller = record.session.state caller
      ∨ next.state caller = .dropped ∨ record.session.line.head? = some caller)
    (holders : ∀ happening ∈ new, record.session.line.head? = some happening.caller)
    : Orderly ⟨next, record.trace ++ new, record.arrivals, turnsAfter record next⟩ := by
  refine orderly.passes ?_ orderly.distinct
    (fun caller unseen => orderly.absent caller (absent caller unseen)) (fun caller waiting => ?_)
    (fun caller further => ?_) ?_ (fun caller turn => .inl (line ▸ turn)) (fun caller had => ?_)
    holders
  · rw [line, orderly.line]
    exact List.filter_congr fun caller member => by rw [finished caller member]
  · rcases begun caller with same | dropped | head
    · exact orderly.queued caller (same ▸ waiting)
    · cases dropped.symm.trans waiting
    · rw [orderly.line] at head
      exact (List.mem_filter.mp (List.mem_of_head? head)).1
  · rcases begun caller with same | dropped | head
    · exact orderly.had caller (same ▸ further)
    · rw [dropped] at further
      rcases further with ⟨_, impossible⟩ | ⟨_, impossible⟩ <;> cases impossible
    · exact List.mem_of_getLast? (orderly.holder caller head)
  · rw [turnsAfter_of_eq (by rw [line]), line]
    exact orderly.order
  · have member : caller ∈ record.arrivals :=
      orderly.order.subset (List.mem_append_left _ had)
    rw [line, finished caller member]
    exact orderly.ended caller had

/-- What comes of the line when somebody leaves it: the turn passes only from whoever leaves,
to somebody who has not had it.
-/
theorem line_leaves (orderly : Orderly record) {next : Session} {leaver : Nat}
    (present : leaver ∈ record.session.line)
    (line : next.line = record.session.line.erase leaver)
    : (turnsAfter record next ++ next.line.tail).Sublist record.arrivals
      ∧ (∀ caller, next.line.head? = some caller →
        record.session.line.head? = some caller ∨ caller ∉ record.turns)
      ∧ ∀ caller, caller ≠ leaver → record.session.line.head? = some caller →
        next.line.head? = some caller := by
  obtain ⟨head, tail, split⟩ := List.exists_cons_of_ne_nil (List.ne_nil_of_mem present)
  have distinct := orderly.distinctLine
  have distinctTurns := orderly.distinctTurns
  have order := orderly.order
  rw [split] at distinct line
  rw [split, List.tail_cons] at distinctTurns order
  by_cases first : head = leaver
  · subst first
    rw [List.erase_cons_head] at line
    have passes : next.line.head? ≠ record.session.line.head? := by
      intro same
      rw [line, split, List.head?_cons] at same
      exact (List.nodup_cons.mp distinct).1 (List.mem_of_head? same)
    refine ⟨?_, fun caller turn => .inr fun before => ?_, fun caller different turn => ?_⟩
    · rw [turnsAfter_append_tail passes, line]
      exact order
    · rw [line] at turn
      exact (List.nodup_append.mp distinctTurns).2.2 caller before caller
        (List.mem_of_head? turn) rfl
    · rw [split] at turn
      exact absurd (Option.some.inj turn).symm different
  · rw [List.erase_cons_tail (by simpa using first)] at line
    have same : next.line.head? = record.session.line.head? := by
      rw [line, split, List.head?_cons, List.head?_cons]
    refine ⟨?_, fun caller turn => .inl (same ▸ turn), fun caller _ turn => same.trans turn⟩
    rw [turnsAfter_of_eq same, line, List.tail_cons]
    exact (List.erase_sublist.append_left _).trans order

/-- A move that takes somebody out of the line. If that was the holder of the turn, the next
one in the line gets it.
-/
theorem leaves (orderly : Orderly record) {next : Session} {new : List Happening} {leaver : Nat}
    (present : leaver ∈ record.session.line)
    (line : next.line = record.session.line.erase leaver)
    (others : ∀ caller, caller ≠ leaver → next.state caller = record.session.state caller)
    (finished : (next.state leaver).isOver = true)
    (begun : next.state leaver = .dropped ∨ record.session.line.head? = some leaver)
    (holders : ∀ happening ∈ new, record.session.line.head? = some happening.caller)
    : Orderly ⟨next, record.trace ++ new, record.arrivals, turnsAfter record next⟩ := by
  obtain ⟨order, front, still⟩ := orderly.line_leaves present line
  refine orderly.passes ?_ orderly.distinct (fun caller unseen => ?_) (fun caller waiting => ?_)
    (fun caller further => ?_) order front (fun caller before => ?_) holders
  · rw [line, orderly.line, List.Nodup.erase_eq_filter (orderly.distinct.filter _),
      List.filter_filter]
    refine List.filter_congr fun caller _ => ?_
    by_cases same : caller = leaver
    · simp [same, finished]
    · simp [same, others caller same]
  · by_cases same : caller = leaver
    · rw [← same, unseen] at finished
      cases finished
    · exact orderly.absent caller (others caller same ▸ unseen)
  · by_cases same : caller = leaver
    · rw [orderly.line] at present
      exact same ▸ (List.mem_filter.mp present).1
    · exact orderly.queued caller (others caller same ▸ waiting)
  · by_cases same : caller = leaver
    · subst same
      rcases begun with dropped | head
      · rw [dropped] at further
        rcases further with ⟨_, impossible⟩ | ⟨_, impossible⟩ <;> cases impossible
      · exact List.mem_of_getLast? (orderly.holder caller head)
    · exact orderly.had caller (others caller same ▸ further)
  · by_cases same : caller = leaver
    · exact .inr (same ▸ finished)
    · rw [others caller same]
      exact (orderly.ended caller before).imp_left (still caller same)

/-- What comes of the line when somebody gets into it: the turn passes only if nobody had it. -/
theorem line_joins (orderly : Orderly record) {next : Session} {comer : Nat}
    (never : comer ∉ record.turns) (line : next.line = record.session.line ++ [comer])
    : (turnsAfter record next ++ next.line.tail).Sublist (record.arrivals ++ [comer])
      ∧ (∀ caller, next.line.head? = some caller →
        record.session.line.head? = some caller ∨ caller ∉ record.turns)
      ∧ ∀ caller, record.session.line.head? = some caller → next.line.head? = some caller := by
  have order := orderly.order.append (List.Sublist.refl [comer])
  cases split : record.session.line with
  | nil =>
      rw [split, List.nil_append] at line
      rw [split, List.tail_nil, List.append_nil] at order
      refine ⟨?_, fun caller turn => .inr ?_, fun caller turn => by cases turn⟩
      · rw [turnsAfter_append_tail (by simp [line, split]), line]
        exact order
      · rw [line] at turn
        exact Option.some.inj turn ▸ never
  | cons head tail =>
      rw [split, List.cons_append] at line
      rw [split, List.tail_cons] at order
      have same : next.line.head? = some head := by rw [line, List.head?_cons]
      refine ⟨?_, fun caller turn => .inl (same.symm.trans turn),
        fun caller turn => same.trans turn⟩
      rw [turnsAfter_of_eq (by rw [same, split, List.head?_cons]), line, List.tail_cons,
        ← List.append_assoc]
      exact order

/-- A move that lets somebody into the line. An empty line gives the turn at once. -/
theorem joins (orderly : Orderly record) {next : Session} {new : List Happening} {comer : Nat}
    (unseen : record.session.state comer = .absent)
    (line : next.line = record.session.line ++ [comer])
    (others : ∀ caller, caller ≠ comer → next.state caller = record.session.state caller)
    (waits : next.state comer = .queued)
    (holders : ∀ happening ∈ new, record.session.line.head? = some happening.caller)
    : Orderly ⟨next, record.trace ++ new, record.arrivals ++ [comer],
        turnsAfter record next⟩ := by
  have away := orderly.absent comer unseen
  have different (caller : Nat) (member : caller ∈ record.arrivals) : caller ≠ comer := by
    rintro rfl
    exact away member
  have never : comer ∉ record.turns := fun before =>
    away (orderly.order.subset (List.mem_append_left _ before))
  obtain ⟨order, front, still⟩ := orderly.line_joins never line
  refine orderly.passes ?_ ?_ (fun caller absent => ?_) (fun caller waiting => ?_)
    (fun caller further => ?_) order front (fun caller before => ?_) holders
  · have same : record.arrivals.filter (fun caller => !(next.state caller).isOver)
        = record.arrivals.filter fun caller => !(record.session.state caller).isOver :=
      List.filter_congr fun caller member => by rw [others caller (different caller member)]
    have kept : [comer].filter (fun caller => !(next.state caller).isOver) = [comer] := by
      simp [waits, CallState.isOver]
    rw [line, List.filter_append, same, ← orderly.line, kept]
  · exact List.nodup_append.mpr ⟨orderly.distinct, List.nodup_singleton _,
      fun caller member other same => List.mem_singleton.mp same ▸ different caller member⟩
  · have apart : caller ≠ comer := by
      rintro rfl
      cases waits.symm.trans absent
    rw [List.mem_append, List.mem_singleton]
    exact not_or.mpr ⟨orderly.absent caller (others caller apart ▸ absent), apart⟩
  · by_cases same : caller = comer
    · exact List.mem_append_right _ (List.mem_singleton.mpr same)
    · exact List.mem_append_left _ (orderly.queued caller (others caller same ▸ waiting))
  · have apart : caller ≠ comer := by
      rintro rfl
      rw [waits] at further
      rcases further with ⟨_, impossible⟩ | ⟨_, impossible⟩ <;> cases impossible
    exact orderly.had caller (others caller apart ▸ further)
  · have apart : caller ≠ comer := by
      rintro rfl
      exact never before
    rw [others caller apart]
    exact (orderly.ended caller before).imp_left (still caller)

theorem extend_eq (record : Record) (occasion : Occasion)
    : record.extend occasion
      = ⟨(record.session.step occasion.tree occasion.now occasion.action).1,
          record.trace
            ++ (record.session.step occasion.tree occasion.now occasion.action).2.1.map
              (Happening.mk occasion.tree occasion.now occasion.action.caller),
          record.arrivals ++ record.session.joining occasion.action,
          turnsAfter record
            (record.session.step occasion.tree occasion.now occasion.action).1⟩ :=
  rfl

/-- Whoever a reply comes for has the turn, and so do all events of the reply. -/
theorem holders_of_turn {caller : Nat} (turn : record.session.line.head? = some caller)
    (tree : FileTree) (now : Nat) (events : List Event)
    : ∀ happening ∈ events.map (Happening.mk tree now caller),
      record.session.line.head? = some happening.caller := by
  intro happening member
  obtain ⟨event, -, rfl⟩ := List.mem_map.mp member
  exact turn

/-- Whoever has begun and is not over stands in the line. -/
theorem mem_line (orderly : Orderly record) {caller : Nat} {state : CallState}
    (now : record.session.state caller = state)
    (begun : state = .queued ∨ ∃ phase, state = .active phase)
    : caller ∈ record.session.line := by
  have came : caller ∈ record.arrivals := by
    rcases begun with rfl | ⟨phase, rfl⟩
    · exact orderly.queued caller now
    · exact orderly.order.subset
        (List.mem_append_left _ (orderly.had caller (.inl ⟨phase, now⟩)))
  rw [orderly.line, List.mem_filter, now]
  exact ⟨came, by rcases begun with rfl | ⟨phase, rfl⟩ <;> rfl⟩

/-- Every move keeps the order of turns. -/
theorem extend (orderly : Orderly record) (occasion : Occasion)
    : Orderly (record.extend occasion) := by
  have moves := Session.moves_step record.session occasion.tree occasion.now occasion.action
  rw [extend_eq]
  generalize record.session.step occasion.tree occasion.now occasion.action = result at moves ⊢
  obtain ⟨next, events, log⟩ := result
  obtain ⟨tree, now, action⟩ := occasion
  dsimp only at moves ⊢
  cases moves with
  | idle nobody =>
      rw [nobody, List.append_nil]
      exact orderly.stays rfl (fun _ _ => rfl) (fun _ same => same) (fun _ => .inl rfl) (by simp)
  | @joins caller job absent =>
      have comes : record.session.joining (.arrive caller) = [caller] := by
        rw [Session.joining, absent]
      rw [comes]
      exact orderly.joins (Session.state_of_getElem? absent) rfl
        (fun other different => Session.state_withState_of_ne different _ _)
        (Session.state_withState_self absent _) (by simp)
  | @quits caller job absent =>
      have unseen := Session.state_of_getElem? absent
      have dropped := Session.state_withState_self absent .dropped
      change Orderly ⟨_, _, record.arrivals ++ [], _⟩
      rw [List.append_nil]
      refine orderly.stays rfl (fun other member => ?_) (fun other away => ?_) (fun other => ?_)
        (by simp)
      · rw [Session.state_withState_of_ne]
        rintro rfl
        exact orderly.absent _ unseen member
      · by_cases same : other = caller
        · exact same ▸ unseen
        · rwa [Session.state_withState_of_ne same] at away
      · by_cases same : other = caller
        · exact .inr (.inl (same ▸ dropped))
        · exact .inl (Session.state_withState_of_ne same _ _)
  | @abandons caller job state present begun =>
      have dropped : ((record.session.withState caller .dropped).leave caller).state caller
          = .dropped :=
        Session.state_withState_self present .dropped
      change Orderly ⟨_, _, record.arrivals ++ [], _⟩
      rw [List.append_nil]
      exact orderly.leaves (orderly.mem_line (Session.state_of_getElem? present) begun) rfl
        (fun other different => Session.state_withState_of_ne different _ _)
        (by rw [dropped]; rfl) (.inl dropped) (by simp)
  | @goesOn caller job state phase reply present begun turn open' =>
      have former := Session.state_of_getElem? present
      have active := Session.state_withState_self present
        (.active (record.session.creator.react tree now job phase reply).phase)
      change Orderly ⟨_, _, record.arrivals ++ [], _⟩
      rw [List.append_nil]
      refine orderly.stays rfl (fun other member => ?_) (fun other away => ?_) (fun other => ?_)
        (holders_of_turn turn tree now _)
      · by_cases same : other = caller
        · rw [same, active, former]
          rcases begun with ⟨rfl, -⟩ | rfl <;> rfl
        · rw [Session.state_withState_of_ne same]
      · by_cases same : other = caller
        · rw [same, active] at away
          cases away
        · rwa [Session.state_withState_of_ne same] at away
      · by_cases same : other = caller
        · exact .inr (.inr (same ▸ turn))
        · exact .inl (Session.state_withState_of_ne same _ _)
  | @settles caller job state phase reply outcome present begun turn settled =>
      have over' : ((record.session.withState caller (.settled outcome)).leave caller).state
          caller = .settled outcome :=
        Session.state_withState_self present (.settled outcome)
      change Orderly ⟨_, _, record.arrivals ++ [], _⟩
      rw [List.append_nil]
      exact orderly.leaves (List.mem_of_head? turn) rfl
        (fun other different => Session.state_withState_of_ne different _ _)
        (by rw [over']; rfl) (.inr turn) (holders_of_turn turn tree now _)

end Orderly

/-- Every record is in the order of turns, by induction on its occasions. -/
theorem orderly_of (creator : Creator) (jobs : List Job) (occasions : List Occasion)
    : Orderly (of creator jobs occasions) :=
  of_induction (.opening creator jobs) (fun _ occasion orderly => orderly.extend occasion)
    occasions

-----------------------------------------------------------------------------------------
-- Going on
-----------------------------------------------------------------------------------------

/-- A move changes nothing for a request that has settled or been dropped. -/
theorem state_of_moves {session next : Session} {tree : FileTree} {now : Nat} {action : Action}
    {events : List Event} (moves : session.Moves tree now action next events) {caller : Nat}
    (finished : (session.state caller).isOver = true)
    : next.state caller = session.state caller := by
  have different {other : Nat} {job : Job} {state : CallState}
      (present : session.calls[other]? = some ⟨job, state⟩) (going : state.isOver = false)
      : caller ≠ other := by
    rintro rfl
    rw [Session.state_of_getElem? present, going] at finished
    cases finished
  cases moves with
  | idle => rfl
  | joins absent => exact Session.state_withState_of_ne (different absent rfl) _ _
  | quits absent => exact Session.state_withState_of_ne (different absent rfl) _ _
  | abandons present begun =>
      refine Session.state_withState_of_ne (different present ?_) _ _
      rcases begun with rfl | ⟨phase, rfl⟩ <;> rfl
  | goesOn present begun =>
      refine Session.state_withState_of_ne (different present ?_) _ _
      rcases begun with ⟨rfl, -⟩ | rfl <;> rfl
  | settles present begun =>
      refine Session.state_withState_of_ne (different present ?_) _ _
      rcases begun with ⟨rfl, -⟩ | rfl <;> rfl

/-- A request has the turn from when it gets it until it settles or is dropped. -/
def Holds (record : Record) (caller : Nat) : Prop :=
  caller ∈ record.turns ∧ (record.session.state caller).isOver = false

/-- The one that has the turn is the one that a reply moves on. -/
theorem Orderly.holds_iff {record : Record} (orderly : Orderly record) (caller : Nat)
    : record.Holds caller ↔ record.session.line.head? = some caller := by
  constructor
  · rintro ⟨had, going⟩
    refine (orderly.ended caller had).resolve_right fun finished => ?_
    rw [going] at finished
    cases finished
  · intro head
    have member := List.mem_of_head? head
    rw [orderly.line, List.mem_filter] at member
    exact ⟨List.mem_of_getLast? (orderly.holder caller head), by simpa using member.2⟩

/-- What a step adds to a record is done by the one that has the turn. -/
theorem Orderly.trace_extend {record : Record} (orderly : Orderly record) (occasion : Occasion)
    : ∃ new, (record.extend occasion).trace = record.trace ++ new
        ∧ ∀ happening ∈ new, record.Holds happening.caller := by
  have moves := Session.moves_step record.session occasion.tree occasion.now occasion.action
  refine ⟨(record.session.step occasion.tree occasion.now occasion.action).2.1.map
    (Happening.mk occasion.tree occasion.now occasion.action.caller), rfl, fun _ member => ?_⟩
  obtain ⟨event, among, rfl⟩ := List.mem_map.mp member
  exact (orderly.holds_iff _).mpr (moves.turn_of_mem among)

/-- How a record goes on: no turn is taken back, and whoever has settled or been dropped
neither gets a turn nor does anything any more.
-/
structure Continues (before after : Record) : Prop where
  trace : before.trace <+: after.trace
  arrivals : before.arrivals <+: after.arrivals
  turns : before.turns <+: after.turns
  state (caller : Nat) (finished : (before.session.state caller).isOver = true)
    : after.session.state caller = before.session.state caller
  turn (caller : Nat) (finished : (before.session.state caller).isOver = true)
    : caller ∈ after.turns → caller ∈ before.turns
  own (caller : Nat) (finished : (before.session.state caller).isOver = true)
    : after.own caller = before.own caller

namespace Continues

theorem refl (record : Record) : Continues record record :=
  ⟨List.prefix_rfl, List.prefix_rfl, List.prefix_rfl, fun _ _ => rfl, fun _ _ had => had,
    fun _ _ => rfl⟩

theorem trans {first second third : Record} (before : Continues first second)
    (after : Continues second third)
    : Continues first third := by
  have still (caller : Nat) (finished : (first.session.state caller).isOver = true)
      : (second.session.state caller).isOver = true := by
    rw [before.state caller finished]
    exact finished
  exact {
    trace := before.trace.trans after.trace
    arrivals := before.arrivals.trans after.arrivals
    turns := before.turns.trans after.turns
    state := fun caller finished =>
      (after.state caller (still caller finished)).trans (before.state caller finished)
    turn := fun caller finished had =>
      before.turn caller finished (after.turn caller (still caller finished) had)
    own := fun caller finished =>
      (after.own caller (still caller finished)).trans (before.own caller finished) }

theorem extend {record : Record} (orderly : Orderly record) (occasion : Occasion)
    : Continues record (record.extend occasion) := by
  have state (caller : Nat) (finished : (record.session.state caller).isOver = true)
      : (record.extend occasion).session.state caller = record.session.state caller :=
    state_of_moves (Session.moves_step record.session _ _ _) finished
  have next := orderly.extend occasion
  obtain ⟨new, added, holders⟩ := orderly.trace_extend occasion
  refine ⟨added ▸ List.prefix_append _ _, List.prefix_append _ _,
    Orderly.turns_prefix_turnsAfter _ _, state, fun caller finished had => ?_,
    fun caller finished => ?_⟩
  · refine (Orderly.mem_turnsAfter had).resolve_right fun front => ?_
    have member : caller ∈ (record.extend occasion).session.line := List.mem_of_head? front
    rw [next.line, List.mem_filter, state caller finished, finished] at member
    cases member.2
  · rw [Record.own, added, List.filter_append, ← Record.own, List.append_right_eq_self,
      List.filter_eq_nil_iff]
    intro happening member same
    have going := (holders happening member).2
    rw [eq_of_beq same, finished] at going
    cases going

end Continues

/-- A record goes on through every occasion, by induction on them. -/
theorem continues_of_append (creator : Creator) (jobs : List Job)
    (occasions later : List Occasion)
    : Continues (of creator jobs occasions) (of creator jobs (occasions ++ later)) := by
  rw [of_append]
  have orderly := orderly_of creator jobs occasions
  generalize of creator jobs occasions = record at orderly ⊢
  induction later generalizing record with
  | nil => exact .refl record
  | cons occasion rest ih =>
      exact (Continues.extend orderly occasion).trans (ih _ (orderly.extend occasion))

-----------------------------------------------------------------------------------------
-- One at a time
-----------------------------------------------------------------------------------------

/-- Requests that take turns. -/
structure TakesTurns (record : Record) : Prop where
  /-- No two have the turn at once. -/
  exclusive (one other : Nat) (first : record.Holds one) (second : record.Holds other)
    : one = other
  /-- Nobody has it twice. -/
  once : record.turns.Nodup
  /-- It goes round in the order in which it was asked for. -/
  order : record.turns.Sublist record.arrivals
  /-- The first one of those that wait for it or have it has it. -/
  prompt : ∀ caller ∈ record.arrivals.find? fun caller => !(record.session.state caller).isOver,
    record.Holds caller
  /-- All that ever happened was done by one after the other, in the order of the turns. -/
  apart : record.trace = record.turns.flatMap record.own
  /-- All that happens next is done by the one that has the turn. -/
  inside (occasion : Occasion)
    : ∃ new, (record.extend occasion).trace = record.trace ++ new
        ∧ ∀ happening ∈ new, record.Holds happening.caller

theorem Orderly.takesTurns {record : Record} (orderly : Orderly record) : TakesTurns record where
  exclusive one other first second := by
    rw [orderly.holds_iff] at first second
    exact Option.some.inj (first.symm.trans second)
  once := (List.nodup_append.mp orderly.distinctTurns).1
  order := (List.sublist_append_left _ _).trans orderly.order
  prompt caller first := by
    rw [orderly.holds_iff, orderly.line, List.head?_filter]
    exact first
  apart := orderly.own
  inside := orderly.trace_extend

/-- Requests of one workspace never get into each other's way: whatever comes when, at most
one has the turn, turns go in the order in which they were asked for, and nobody does anything
but in its turn, least of all after having settled or been dropped.
-/
theorem takesTurns_of (creator : Creator) (jobs : List Job) (occasions later : List Occasion)
    : TakesTurns (of creator jobs occasions)
        ∧ Continues (of creator jobs occasions) (of creator jobs (occasions ++ later)) :=
  ⟨(orderly_of creator jobs occasions).takesTurns,
    continues_of_append creator jobs occasions later⟩

end RouteDesk.Record
