import RouteDesk.Proofs.Creation.Single

/-! A single request comes to its end. Every step brings it nearer, by a bound of the replies that
it can still get and of the milliseconds that can still pass, so that it is settled within the limit
of steps; and what every step preserves holds then.
-/

namespace RouteDesk

-----------------------------------------------------------------------------------------
-- Steps to go
-----------------------------------------------------------------------------------------

section

variable (timings : Timings) (lines searchedAt now : Nat)

/-- How many replies a request can get at most from a phase on: two for every line and every
millisecond that is left, but for pauses that end after the time limit.
-/
def Phase.repliesLeft : Phase → Nat
  | .ready => 2 * lines + inFile + 2
  | .asking => 2 * lines + inFile
  | .dispatching _ => 2 * lines + inFile + 1
  | .evaluating (.file _ deadline) => 2 * (deadline - searchedAt) + inFocus + 3
  | .resting (.file _ deadline) wake => 2 * (deadline + 1 - wake) + inFocus + 2
  | .evaluating (.focus _ _ deadline) => 2 * (deadline - now) + 2
  | .resting (.focus _ _ deadline) wake => 2 * (deadline + 1 - wake) + 1
  | .settled _ => 0
where
  /-- As many as can come while the editor is looked at. -/
  inFocus : Nat := 2 * timings.focusTime + 2
  /-- As many as can come from the first search on. -/
  inFile : Nat := 2 * timings.fileTime + inFocus + 3

/-- How many milliseconds can pass from a phase on. -/
def Phase.millisLeft : Phase → Nat
  | .ready | .asking | .dispatching _ => timings.fileTime + timings.focusTime
  | .evaluating (.file _ deadline) | .resting (.file _ deadline) _ =>
      deadline - now + timings.focusTime
  | .evaluating (.focus _ _ deadline) | .resting (.focus _ _ deadline) _ => deadline - now
  | .settled _ => 0

/-- A bound of the steps to go from a phase on, rounds not counted. -/
def Phase.toGo (phase : Phase) : Nat :=
  3 * phase.repliesLeft timings lines searchedAt now + 2 * phase.millisLeft timings now

/-- A bound of the steps to go for a request that has come so far, rounds not counted. -/
def CallState.toGo : CallState → Nat
  | .absent => Phase.ready.toGo timings lines searchedAt now + 3
  | .queued => Phase.ready.toGo timings lines searchedAt now
  | .active phase => phase.toGo timings lines searchedAt now
  | .settled _ | .dropped => 0

end

namespace Timeline

variable {σ : Type} {world : World σ} {timeline next : Timeline σ} {creator : Creator} {job : Job}

theorem toGo_offer (creator : Creator) (tree : FileTree) (dialect : Dialect) (name : String)
    (lines searchedAt now : Nat)
    : (creator.offer tree dialect name).phase.toGo creator.timings lines searchedAt now
      ≤ (Phase.dispatching (.of creator.root dialect name)).toGo creator.timings lines searchedAt
        now := by
  unfold Creator.offer
  dsimp only
  split
  · exact Nat.zero_le _
  · exact Nat.le_refl _

/-- Every reply takes a request nearer to its end, by cases of the reply. -/
theorem toGo_react (positive : 0 < creator.timings.interval)
    {phase : Phase} {middle : Timeline σ} {reply : Reply}
    (replies : Replies world timeline 0 job.dialect phase middle reply)
    {reaction : Reaction}
    (reacts : creator.react (world.tree middle.world) middle.now job phase reply = reaction)
    (searched : timeline.searchedAt ≤ timeline.now) {lines left searchedAt : Nat}
    (fewer : left ≤ lines) (taken : ∀ name, reply = .answered (some name) → left < lines)
    (began : ∀ fileName, .searching fileName ∈ reaction.events → searchedAt = timeline.now)
    : reaction.phase.toGo creator.timings left searchedAt timeline.now + 3
      ≤ phase.toGo creator.timings lines timeline.searchedAt timeline.now := by
  have pause := waited_pos positive
  have offered := fun tree name =>
    toGo_offer creator tree job.dialect name left searchedAt timeline.now
  cases replies with
  | goes =>
      cases job with
      | named dialect name =>
          have bound := offered (world.tree timeline.world) name
          obtain rfl := reacts
          change (creator.offer (world.tree timeline.world) dialect name).phase.toGo _ _ _ _ + 3
            ≤ _
          simp only [Job.dialect, Phase.toGo, Phase.repliesLeft, Phase.millisLeft] at bound ⊢
          omega
      | unnamed dialect =>
          obtain rfl := reacts
          simp only [Creator.react, Phase.toGo, Phase.repliesLeft, Phase.millisLeft]
          omega
  | @answers middle name asked =>
      obtain rfl := reacts
      cases name with
      | none =>
          simp only [Creator.react, Phase.toGo, Phase.repliesLeft, Phase.repliesLeft.inFile,
            Phase.millisLeft]
          omega
      | some name =>
          have taken := taken name rfl
          have bound := offered (world.tree middle.world) name
          change (creator.offer (world.tree middle.world) job.dialect name).phase.toGo _ _ _ _ + 3
            ≤ _
          simp only [Phase.toGo, Phase.repliesLeft, Phase.millisLeft] at bound ⊢
          omega
  | dispatches dispatched =>
      rename_i artifact state outcome log
      cases outcome with
      | ok =>
          obtain rfl := reacts
          obtain rfl := began artifact.fileName (by simp [Creator.react])
          simp only [Creator.react, Phase.toGo, Phase.repliesLeft, Phase.repliesLeft.inFile,
            Phase.millisLeft, noted]
          omega
      | error reason =>
          obtain rfl := reacts
          cases job <;>
            simp only [Creator.react, Phase.toGo, Phase.repliesLeft, Phase.millisLeft] <;> omega
  | searches spare searches =>
      rename_i artifact deadline state outcome
      obtain rfl := reacts
      simp only [Creator.react, Creator.onSearched]
      split <;>
        simp only [Phase.toGo, Phase.repliesLeft, Phase.repliesLeft.inFocus, Phase.millisLeft] <;>
        omega
  | looks =>
      obtain rfl := reacts
      simp only [Creator.react, Creator.onLooked]
      split <;>
        simp only [Phase.toGo, Phase.repliesLeft, Phase.millisLeft] <;> omega
  | @rests watch wake spare due within =>
      obtain rfl := reacts
      cases watch with
      | file artifact deadline =>
          obtain rfl := began artifact.fileName (by simp [Creator.react])
          simp only [Creator.react, Phase.toGo, Phase.repliesLeft, Phase.millisLeft,
            Watch.deadline] at within ⊢
          omega
      | focus artifact found deadline =>
          simp only [Creator.react, Phase.toGo, Phase.repliesLeft, Phase.millisLeft,
            Watch.deadline] at within ⊢
          omega
  | @expires watch phase waits late =>
      obtain rfl := reacts
      rcases waits with rfl | ⟨wake, rfl⟩ <;> cases watch <;>
        simp only [Creator.react, Phase.toGo, Phase.repliesLeft, Phase.millisLeft] <;> omega

/-- A bound of the steps to go. A reply is followed by the one that passes the caller by and the one
that begins a new round, and so is a moment that passes.
-/
def toGo (timeline : Timeline σ) (state : CallState) : Nat :=
  state.toGo timeline.session.creator.timings timeline.linesLeft timeline.searchedAt timeline.now
    + (if timeline.moved then 4 else 2) - timeline.cursor

/-- Whatever is due for the one that has the turn is due before the time limit of a watch. -/
theorem Single.watch_of_turnDue {state : CallState} (single : Single creator job state timeline)
    {due : Nat} (turn : timeline.turnDue? = some due)
    : ∃ watch, (state = .active (.evaluating watch)
          ∨ ∃ wake, state = .active (.resting watch wake))
        ∧ due ≤ watch.deadline := by
  have turn' := turn
  rw [turnDue?, single.session] at turn'
  cases state with
  | active phase =>
      cases phase with
      | evaluating watch =>
          rw [single.turnDue_evaluating] at turn
          exact ⟨watch, .inl rfl, Option.some.inj turn ▸ Nat.min_le_right _ _⟩
      | resting watch wake =>
          rw [single.turnDue_resting] at turn
          exact ⟨watch, .inr ⟨wake, rfl⟩, Option.some.inj turn ▸ Nat.min_le_right _ _⟩
      | _ => cases turn'
  | _ => cases turn'

/-- A millisecond that passes is one less. -/
theorem toGo_of_later (timings : Timings) (lines searchedAt : Nat) {now moment : Nat}
    {watch : Watch} (passes : now < moment) (early : moment ≤ watch.deadline) {state : CallState}
    (waits : state = .active (.evaluating watch) ∨ ∃ wake, state = .active (.resting watch wake))
    : state.toGo timings lines searchedAt moment + 2 ≤ state.toGo timings lines searchedAt now := by
  rcases waits with rfl | ⟨wake, rfl⟩ <;> cases watch <;>
    simp only [CallState.toGo, Phase.toGo, Phase.repliesLeft, Phase.millisLeft,
      Watch.deadline] at early ⊢ <;>
    omega

/-- Every step takes a request nearer to its end. -/
theorem toGo_lt_of_goes {state reached : CallState} (single : Single creator job state timeline)
    (positive : 0 < creator.timings.interval)
    (goes : Goes world creator job timeline state next reached)
    : next.toGo reached < timeline.toGo state := by
  have made : timeline.session.creator = creator := by rw [single.session]; rfl
  cases goes with
  | comes first heeds =>
      rw [toGo, toGo, (heeds.patient _ single.patient).linesLeft, heeds.session, heeds.moved,
        heeds.cursor, made]
      change Phase.toGo creator.timings _ _ _ .ready + 4 - timeline.cursor
        < Phase.toGo creator.timings _ _ _ .ready + 3 + _ - timeline.cursor
      simp only [Phase.toGo, Phase.repliesLeft, Phase.millisLeft]
      split <;> omega
  | @replies _ phase middle _ reply first begun replies reaction reacts heeds =>
      have keeps := replies.keeps
      obtain ⟨left, patient, fewer, taken⟩ := replies.patient single.patient
      have nearer := toGo_react positive replies reacts single.searched fewer taken
        (fun fileName search => (heeds.began fileName search).searchedAt.trans keeps.now)
      have before : state.toGo creator.timings timeline.linesLeft timeline.searchedAt timeline.now
          = phase.toGo creator.timings timeline.linesLeft timeline.searchedAt timeline.now := by
        rcases begun with ⟨rfl, rfl⟩ | rfl <;> rfl
      have after : reaction.phase.state.toGo creator.timings left next.searchedAt timeline.now
          = reaction.phase.toGo creator.timings left next.searchedAt timeline.now := by
        cases reaction.phase <;> rfl
      have now : next.now = timeline.now := heeds.now.trans keeps.now
      have cursor : next.cursor = 0 := heeds.cursor.trans (keeps.cursor.trans first)
      rw [toGo, toGo, (heeds.patient _ patient).linesLeft, heeds.session, heeds.moved, cursor,
        first, made, now, before]
      change reaction.phase.state.toGo creator.timings _ _ _ + 4 - 0 < _
      rw [after]
      split <;> omega
  | passes first =>
      rw [toGo, toGo, first]
      change state.toGo timeline.session.creator.timings timeline.linesLeft timeline.searchedAt
        timeline.now + (if timeline.moved then 4 else 2) - 1 < _
      split <;> omega
  | returns last moved =>
      rw [toGo, toGo, last, moved]
      change state.toGo timeline.session.creator.timings timeline.linesLeft timeline.searchedAt
        timeline.now + 2 - 0 < _ + 4 - 1
      omega
  | @waits _ moment due _ _ last unmoved turn passes early advances =>
      obtain ⟨watch, waits, within⟩ := single.watch_of_turnDue turn
      have sooner := toGo_of_later timeline.session.creator.timings timeline.linesLeft
        timeline.searchedAt passes (early.trans within) waits
      rw [toGo, toGo, last, unmoved]
      change state.toGo timeline.session.creator.timings timeline.linesLeft timeline.searchedAt
        moment + 2 - 0 < _ + 2 - 1
      omega

/-- What every step preserves holds when a single request is settled, which it is after as many
steps as it has to go, by induction on them.
-/
theorem Single.run (positive : 0 < creator.timings.interval)
    {invariant : CallState → Timeline σ → Prop}
    (step : ∀ timeline state next reached, Single creator job state timeline →
      Goes world creator job timeline state next reached → invariant state timeline →
      invariant reached next)
    {state : CallState} (single : Single creator job state timeline)
    (holds : invariant state timeline) {steps : Nat} (enough : timeline.toGo state ≤ steps)
    : ∃ outcome, Single creator job (.settled outcome) (timeline.run world steps)
        ∧ invariant (.settled outcome) (timeline.run world steps) := by
  induction steps generalizing timeline state with
  | zero =>
      have visited := single.visited
      rw [toGo] at enough
      split at enough <;> omega
  | succ steps ih =>
      rw [Timeline.run]
      cases stepped : timeline.step? world with
      | none =>
          obtain ⟨outcome, rfl⟩ := single.settled_of_step stepped
          exact ⟨outcome, single, holds⟩
      | some next =>
          obtain ⟨reached, goes, still⟩ := single.step stepped
          have nearer := toGo_lt_of_goes single positive goes
          exact ih still (step _ _ _ _ single goes holds) (by omega)

theorem single_start (creator : Creator) (state : σ) (job : Job) (prompt : Dialogue)
    : Single creator job .absent (start creator state [(job, { prompt })]) where
  session := rfl
  kept := CallState.noConfusion
  comesAtOnce _ := rfl
  unsettled _ := CallState.noConfusion
  patient := ⟨0, prompt, none, rfl, rfl⟩
  visited := Nat.zero_le 1
  searched := Nat.le_refl 0
  spared _ _ := Nat.zero_lt_succ _
  idle := nofun

/-- The limit of steps is enough for a single request. -/
theorem toGo_start_le (world : World σ) (creator : Creator) (state : σ) (job : Job)
    (prompt : Dialogue)
    : (start creator state [(job, { prompt })]).toGo .absent
      ≤ (start creator state [(job, { prompt })]).stepLimit world := by
  change Phase.ready.toGo creator.timings prompt.lines.length 0 0 + 3 + 2 - 0
    ≤ (1 + 2) * (4 * ((1 + 1) * (creator.timings.fileTime + creator.timings.focusTime + 4))
      + 4 * (0 + prompt.lines.length)
      + 4 * (world.faults state + (1 + 1) * (2 * waitsInARow)) + 8 * (1 + 1))
  simp only [Phase.toGo, Phase.repliesLeft, Phase.repliesLeft.inFile, Phase.repliesLeft.inFocus,
    Phase.millisLeft]
  omega

/-- A single request whose pauses take time is settled in the end, whatever the world is like; and
what every step preserves holds then.
-/
theorem exists_settled_finish {creator : Creator} (positive : 0 < creator.timings.interval)
    (world : World σ) (state : σ) (job : Job) (prompt : Dialogue)
    (invariant : CallState → Timeline σ → Prop)
    (holds : invariant .absent (start creator state [(job, { prompt })]))
    (step : ∀ timeline state next reached, Single creator job state timeline →
      Goes world creator job timeline state next reached → invariant state timeline →
      invariant reached next)
    : ∃ outcome,
        ((start creator state [(job, { prompt })]).finish world).outcome? 0 = some outcome
          ∧ invariant (.settled outcome)
            ((start creator state [(job, { prompt })]).finish world) := by
  obtain ⟨outcome, single, holds⟩ := Single.run positive step
    (single_start creator state job prompt) holds (toGo_start_le world creator state job prompt)
  refine ⟨outcome, ?_, holds⟩
  rw [outcome?, finish, single.session]
  rfl

end Timeline

end RouteDesk
