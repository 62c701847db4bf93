import RouteDesk.Proofs.Creation.Settling

/-! A single request comes when it is time, and its timeline comes to an end. Until the request
comes it is passed by in every round, and only time passes.
-/

namespace RouteDesk.Timeline

variable {σ : Type} {world : World σ} {timeline next : Timeline σ}

-----------------------------------------------------------------------------------------
-- Ends
-----------------------------------------------------------------------------------------

/-- The timeline has come to this one when nothing more happens. -/
def Ends (world : World σ) (timeline last : Timeline σ) : Prop :=
  ∃ steps, timeline.run world steps = last ∧ last.step? world = none

theorem Ends.of_step {last : Timeline σ} (stepped : timeline.step? world = some next)
    (ends : Ends world next last)
    : Ends world timeline last := by
  obtain ⟨steps, runs, ended⟩ := ends
  refine ⟨steps + 1, ?_, ended⟩
  rw [Timeline.run, stepped]
  exact runs

theorem Ends.stopped {last : Timeline σ} (ends : Ends world timeline last)
    : last.step? world = none := by
  obtain ⟨steps, -, ended⟩ := ends
  exact ended

/-- What has ended after a step has not ended otherwise. -/
theorem Ends.after_step {last : Timeline σ} (ends : Ends world timeline last)
    (stepped : timeline.step? world = some next)
    : Ends world next last := by
  obtain ⟨steps, runs, ended⟩ := ends
  cases steps with
  | zero =>
      subst runs
      cases stepped.symm.trans ended
  | succ steps =>
      rw [Timeline.run, stepped] at runs
      exact ⟨steps, runs, ended⟩

theorem run_of_step_eq_none (ended : timeline.step? world = none) (steps : Nat)
    : timeline.run world steps = timeline := by
  cases steps with
  | zero => rfl
  | succ steps => rw [Timeline.run, ended]

/-- There is only one way that a timeline can end, by induction on its steps. -/
theorem Ends.unique {last again : Timeline σ} (ends : Ends world timeline last)
    (other : Ends world timeline again)
    : last = again := by
  obtain ⟨steps, runs, ended⟩ := ends
  induction steps generalizing timeline with
  | zero =>
      obtain ⟨steps, runs', -⟩ := other
      subst runs
      exact (run_of_step_eq_none ended steps).symm.trans runs'
  | succ steps ih =>
      obtain ⟨more, runs', ended'⟩ := other
      cases stepped : timeline.step? world with
      | none =>
          rw [run_of_step_eq_none stepped] at runs runs'
          exact runs.symm.trans runs'
      | some next =>
          cases more with
          | zero =>
              subst runs'
              cases stepped.symm.trans ended'
          | succ more =>
              rw [Timeline.run, stepped] at runs runs'
              exact ih ⟨more, runs', ended'⟩ runs

/-- Single requests whose pauses take time have come to their end within the limit of steps. -/
theorem ends_finish {creator : Creator} (positive : 0 < creator.timings.interval) (world : World σ)
    (state : σ) (job : Job) (prompt : Dialogue)
    : Ends world (start creator state [(job, { prompt })])
        ((start creator state [(job, { prompt })]).finish world) := by
  obtain ⟨outcome, single, -⟩ := @Single.run σ world _ creator job positive (fun _ _ => True)
    (fun _ _ _ _ _ _ _ => trivial) _ (single_start creator state job prompt) trivial _
    (toGo_start_le world creator state job prompt)
  refine ⟨_, rfl, ?_⟩
  rw [finish, step?, if_pos (single.isOver_iff.mpr ⟨outcome, rfl⟩)]

-----------------------------------------------------------------------------------------
-- Arrivals
-----------------------------------------------------------------------------------------

section

variable {creator : Creator} {job : Job} {ready : σ → Prop}

/-- A timeline of a single request that has not come yet. -/
structure Expects (creator : Creator) (job : Job) (arrival : Nat) (prompt : Dialogue)
    (ready : σ → Prop) (timeline : Timeline σ)
    : Prop where
  session : timeline.session = .single creator job .absent
  visitors : timeline.visitors = [{ start := arrival, prompt }]
  untold : timeline.trace = []
  early : timeline.now ≤ arrival
  searched : timeline.searchedAt ≤ timeline.now
  first : timeline.cursor = 0
  unmoved : timeline.moved = false
  spared : 0 < timeline.spare
  before : ready timeline.world

namespace Expects

variable {arrival : Nat} {prompt : Dialogue}

theorem visitor_eq (expects : Expects creator job arrival prompt ready timeline)
    : timeline.visitor 0 = { start := arrival, prompt } := by
  rw [visitor, expects.visitors]
  rfl

theorem call_eq (expects : Expects creator job arrival prompt ready timeline)
    : timeline.session.calls[0]? = some ⟨job, .absent⟩ := by
  rw [expects.session]
  rfl

theorem length_eq (expects : Expects creator job arrival prompt ready timeline)
    : timeline.session.calls.length = 1 := by
  rw [expects.session]
  rfl

theorem isOver_eq (expects : Expects creator job arrival prompt ready timeline)
    : timeline.isOver = false := by
  rw [isOver, expects.session]
  rfl

theorem step_eq (expects : Expects creator job arrival prompt ready timeline) (world : World σ)
    : timeline.step? world
      = match timeline.action? world 0 with
        | some (next, action) => some (next.perform world 0 action)
        | none => some { timeline with cursor := 1 } := by
  rw [step?, if_neg (by simp [expects.isOver_eq]), expects.length_eq, expects.first]
  exact if_pos Nat.zero_lt_one

/-- It comes as soon as it is time. -/
theorem comes (expects : Expects creator job arrival prompt ready timeline)
    (now : arrival ≤ timeline.now) (world : World σ)
    : ∃ next, timeline.step? world = some next ∧ Single creator job .queued next
        ∧ next.now = arrival ∧ next.trace = [] ∧ ready next.world := by
  obtain ⟨spare, action⟩ : ∃ spare,
      timeline.action? world 0 = some ({ timeline with spare }, .arrive 0) := by
    obtain ⟨left, spare⟩ := Nat.exists_eq_add_one.mpr expects.spared
    rw [action?, expects.call_eq, expects.visitor_eq]
    dsimp only
    rw [waitOver?, spare, if_pos now]
    split
    · exact ⟨timeline.spare, rfl⟩
    · exact ⟨left, rfl⟩
  have stepped := @Session.step_single_arrive creator job (world.tree timeline.world) timeline.now
  rw [← expects.session] at stepped
  have heeds := @heeds_perform σ world { timeline with spare } _ _ _ _ stepped
  have patient : IsPatient { timeline with spare } prompt.lines.length :=
    ⟨arrival, prompt, none, expects.visitors, rfl⟩
  refine ⟨_, by rw [expects.step_eq, action], .of_heeds heeds CallState.noConfusion
    CallState.noConfusion (fun _ => CallState.noConfusion) patient expects.first expects.searched,
    heeds.now.trans (Nat.le_antisymm expects.early now), heeds.trace.trans expects.untold, ?_⟩
  rw [heeds.world]
  exact expects.before

/-- Until then it is passed by, and time passes. -/
theorem waits (follows : ∀ moment state later log, ready state →
      world.advance moment state = (later, log) → ready later)
    (expects : Expects creator job arrival prompt ready timeline)
    (soon : timeline.now < arrival)
    : ∃ middle next, timeline.step? world = some middle ∧ middle.step? world = some next
        ∧ Expects creator job arrival prompt ready next ∧ timeline.now < next.now := by
  have action : timeline.action? world 0 = none := by
    rw [action?, expects.call_eq, expects.visitor_eq]
    dsimp only
    rw [if_neg (by omega), if_neg (by omega)]
  have length := expects.length_eq
  have due : arrival ∈ timeline.callDue 0 := by
    rw [callDue, Session.state, expects.call_eq, expects.visitor_eq]
    exact List.mem_cons_self
  obtain ⟨moment, next, passes, early⟩ := @nextMoment_of_due _ world timeline _
    (.inl ⟨0, by omega, due⟩) soon
  have advances : Timeline.step? world { timeline with cursor := 1 }
      = some { (timeline.noted (world.advance moment timeline.world).2).newRound with
          world := (world.advance moment timeline.world).1, now := moment } := by
    have unfinished : ¬ Timeline.isOver { timeline with cursor := 1 } = true :=
      ne_of_eq_of_ne expects.isOver_eq Bool.false_ne_true
    have last : ¬ 1 < timeline.session.calls.length := by omega
    have next : Timeline.nextMoment? world { timeline with cursor := 1 } = some moment := next
    rw [step?, if_neg unfinished, if_neg last, if_neg (by simp [expects.unmoved]), next]
    rfl
  refine ⟨_, _, by rw [expects.step_eq, action], advances, ?_, passes⟩
  exact {
    session := expects.session
    visitors := expects.visitors
    untold := expects.untold
    early
    searched := expects.searched.trans (Nat.le_of_lt passes)
    first := rfl
    unmoved := rfl
    spared := Nat.zero_lt_succ _
    before := follows _ _ _ _ expects.before rfl }

/-- Every request comes in its time, by induction on the time until then. -/
theorem arrives (follows : ∀ moment state later log, ready state →
      world.advance moment state = (later, log) → ready later)
    (expects : Expects creator job arrival prompt ready timeline)
    : ∃ queued, Single creator job .queued queued
        ∧ (queued.now = arrival ∧ queued.trace = [] ∧ ready queued.world)
        ∧ ∀ last, Ends world queued last → Ends world timeline last := by
  induction gap : arrival - timeline.now using Nat.strong_induction_on generalizing timeline with
  | _ gap ih =>
      rcases Nat.lt_or_ge timeline.now arrival with soon | now
      · obtain ⟨middle, next, passed, later, expects, passes⟩ := expects.waits follows soon
        have early := expects.early
        obtain ⟨queued, single, unstarted, ends⟩ := ih _ (by omega) expects rfl
        exact ⟨queued, single, unstarted, fun last over' =>
          .of_step passed (.of_step later (ends last over'))⟩
      · obtain ⟨queued, comes, single, unstarted⟩ := expects.comes now world
        exact ⟨queued, single, unstarted, fun last => .of_step comes⟩

end Expects

end

end RouteDesk.Timeline
