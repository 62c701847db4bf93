import RouteDesk.Proofs.Creation.Answers
import RouteDesk.Proofs.Creation.Twins
import RouteDesk.Creation.Rehearsal

/-! A request for a route that the user names goes as an interview with the lines of the input, and
from the name that the generator is started for it goes on like a request for that name.
-/

namespace RouteDesk

namespace Timeline

variable {σ : Type} {world : World σ}

-----------------------------------------------------------------------------------------
-- The first moment
-----------------------------------------------------------------------------------------

/-- A single request in its first moment, since when it has had the turn. -/
def sitting (creator : Creator) (job : Job) (phase : Phase) (state : σ) (answerAt : Nat)
    (prompt : Dialogue) (events : List Event) (notes : Log)
    : Timeline σ :=
  { session := .single creator job (.active phase)
    world := state
    visitors := [{ prompt }]
    moved := true
    spare := waitsInARow - 1
    answerAt
    trace := (events.map (Moment.mk 0 0)).reverse
    notes }

/-- A single request for whose artifact the generator has just been started. -/
def launched (world : World σ) (creator : Creator) (job : Job) (artifact : Artifact) (state : σ)
    (prompt : Dialogue) (events : List Event) (notes : Log)
    : Timeline σ :=
  sitting creator job (.evaluating (.file artifact (0 + creator.timings.fileTime))) state
    (0 + world.searchTime state) prompt
    (events ++ [.dispatched (.ok ()), .searching artifact.fileName]) notes

section

variable {creator : Creator} {job : Job} {phase : Phase} {state : σ} {answerAt : Nat}
  {prompt : Dialogue} {events : List Event} {notes : Log}

theorem single_sitting (open' : ∀ outcome, phase ≠ .settled outcome)
    : Single creator job (.active phase)
        (sitting creator job phase state answerAt prompt events notes) where
  session := rfl
  kept := nofun
  comesAtOnce := nofun
  unsettled outcome same := open' outcome (CallState.active.inj same)
  patient := ⟨0, prompt, none, rfl, rfl⟩
  visited := Nat.zero_le 1
  searched := Nat.le_refl 0
  spared := nofun
  idle := nofun

/-- A reply that does not settle the request leaves it in its first moment. -/
theorem perform_sitting {reply : Reply} {reached : Phase} {more : List Event} {log : Log}
    (reacts : creator.react (world.tree state) 0 job phase reply = ⟨reached, more, log⟩)
    (open' : ∀ outcome, reached ≠ .settled outcome)
    : (sitting creator job phase state answerAt prompt events notes).perform world 0
          (.deliver 0 reply)
      = more.foldl (heed world 0)
          (sitting creator job reached state answerAt prompt (events ++ more)
            (log.reverse ++ notes)) := by
  have stepped := @Session.step_single_deliver creator job (.active phase) phase (.inr rfl)
    (world.tree state) 0 reply
  rw [reacts, Phase.state_of_open open'] at stepped
  have acts : (sitting creator job phase state answerAt prompt events notes).acted
        (.single creator job (.active reached)) more log
      = sitting creator job reached state answerAt prompt (events ++ more)
        (log.reverse ++ notes) := by
    simp [acted, sitting, noted]
  rw [perform_eq stepped, acts]
  rfl

theorem step_sitting (open' : ∀ outcome, phase ≠ .settled outcome) {middle : Timeline σ}
    {reply : Reply}
    (replied : (sitting creator job phase state answerAt prompt events notes).replyIn world 0
      job.dialect phase = some (middle, reply))
    : (sitting creator job phase state answerAt prompt events notes).step? world
      = some (middle.perform world 0 (.deliver 0 reply)) := by
  rw [(single_sitting open').step_active, replied]
  rfl

/-- A request comes and gets the turn in its first moment. -/
theorem step_start {reached : Phase} {more : List Event} {log : Log}
    (reacts : creator.react (world.tree state) 0 job .ready .go = ⟨reached, more, log⟩)
    (open' : ∀ outcome, reached ≠ .settled outcome)
    : ∃ queued, (start creator state [(job, { prompt })]).step? world = some queued
        ∧ queued.step? world = some (more.foldl (heed world 0)
          (sitting creator job reached state 0 prompt more log.reverse)) := by
  have stepped := @Session.step_single_deliver creator job .queued .ready (.inl ⟨rfl, rfl⟩)
    (world.tree state) 0 .go
  rw [reacts, Phase.state_of_open open'] at stepped
  let queued : Timeline σ :=
    { session := .single creator job .queued
      world := state
      visitors := [{ prompt }]
      moved := true }
  have acts : { queued with spare := waitsInARow - 1 }.acted
        (.single creator job (.active reached)) more log
      = sitting creator job reached state 0 prompt more log.reverse := by
    simp [acted, sitting, noted, queued]
  have performs := @perform_eq σ world { queued with spare := waitsInARow - 1 } _ _ _ _ stepped
  rw [acts] at performs
  exact ⟨queued, rfl, congrArg some performs⟩

theorem step_asking {dialect : Dialect} {asked : Asked}
    (asks : prompt.ask (Creator.question dialect)
      (RouteName.check (world.tree state) creator.root dialect) = asked)
    : (sitting creator (.unnamed dialect) .asking state answerAt prompt events notes).step? world
      = some ((sitting creator (.unnamed dialect) .asking state answerAt asked.prompt events
          (asked.log.reverse ++ notes)).perform world 0 (.deliver 0 (.answered asked.answer))) := by
  subst asks
  refine step_sitting ?_ rfl
  exact fun _ => nofun

section

variable {artifact : Artifact} {later : σ} {log : Log}

theorem step_dispatching {reply : σ × Except GeneratorError Unit × Log}
    (dispatched : world.dispatch 0 artifact state = reply)
    : (sitting creator job (.dispatching artifact) state answerAt prompt events notes).step? world
      = some ((sitting creator job (.dispatching artifact) reply.1 answerAt prompt events
          (reply.2.2.reverse ++ notes)).perform world 0 (.deliver 0 (.dispatched reply.2.1))) := by
  subst dispatched
  refine step_sitting ?_ rfl
  exact fun _ => nofun

/-- Once the generator has been started, the workspace is searched. -/
theorem step_dispatching_ok
    (dispatched : world.dispatch 0 artifact state = (later, .ok (), log))
    : (sitting creator job (.dispatching artifact) state answerAt prompt events notes).step? world
      = some (launched world creator job artifact later prompt events (log.reverse ++ notes)) := by
  refine (step_dispatching dispatched).trans (congrArg some ?_)
  exact perform_sitting rfl (fun _ => nofun)

/-- A failure is reported, and the user is asked again. -/
theorem step_dispatching_error {dialect : Dialect} {reason : GeneratorError}
    (dispatched : world.dispatch 0 artifact state = (later, .error reason, log))
    : ∃ notes', (sitting creator (.unnamed dialect) (.dispatching artifact) state answerAt prompt
          events notes).step? world
        = some (sitting creator (.unnamed dialect) .asking later answerAt
            (prompt.told s!"⚠️ {reason.chain}\n")
            (events ++ [.dispatched (.error reason), .reported reason.chain, .asked]) notes') := by
  rw [step_dispatching dispatched, ← Dialogue.say_eq_told]
  exact ⟨_, congrArg some (perform_sitting rfl (fun _ => nofun))⟩

end

theorem single_launched {artifact : Artifact}
    : Single creator job
        (.active (.evaluating (.file artifact (0 + creator.timings.fileTime))))
        (launched world creator job artifact state prompt events notes) :=
  single_sitting fun _ => nofun

/-- Whoever has asked for the artifact, requests whose generator has just been started are twins. -/
theorem twins_launched {other : Job} {artifact : Artifact} {prompt' : Dialogue}
    {events' : List Event} {notes' : Log}
    : ∃ phase guise, (launched world creator job artifact state prompt events notes).inGuise guise
          = launched world creator other artifact state prompt' events' notes'
        ∧ Twins creator job other phase
          (launched world creator job artifact state prompt events notes) guise := by
  let twin := launched world creator other artifact state prompt' events' notes'
  have right : Single creator other _ twin := single_launched
  exact ⟨.evaluating (.file artifact (0 + creator.timings.fileTime)),
    ⟨twin.session, twin.visitors, twin.trace, twin.notes⟩, rfl, rfl, single_launched, right⟩

/-- What is made of an accepted name. -/
theorem offer_eq_of_accepted {tree : FileTree} {dialect : Dialect} {name : String}
    (accepted : RouteName.check tree creator.root dialect name = .ok ())
    : ∃ log, creator.offer tree dialect name
        = ⟨.dispatching (.of creator.root dialect name),
            Interview.accepting creator.root dialect name, log⟩ := by
  simp only [Creator.offer, accepted]
  exact ⟨_, rfl⟩

/-- A request for an accepted name goes on as soon as the generator has been started. -/
theorem ends_of_launched {dialect : Dialect} {name : String} {later : σ} {log : Log}
    (accepted : RouteName.check (world.tree state) creator.root dialect name = .ok ())
    (dispatched : world.dispatch 0 (.of creator.root dialect name) state = (later, .ok (), log))
    : ∃ events notes, ∀ last,
        Ends world (launched world creator (.named dialect name) (.of creator.root dialect name)
          later { lines := [] } events notes) last →
        Ends world (start creator state [(.named dialect name, {})]) last := by
  obtain ⟨note, offered⟩ := @offer_eq_of_accepted creator _ _ _ accepted
  have reacts : creator.react (world.tree state) 0 (.named dialect name) .ready .go = _ := offered
  obtain ⟨queued, comes, begins⟩ :=
    @step_start σ world creator (.named dialect name) state { lines := [] } _ _ _ reacts
      fun _ => nofun
  exact ⟨_, _, fun last ends =>
    .of_step comes (.of_step begins (.of_step (step_dispatching_ok dispatched) ends))⟩

end

-----------------------------------------------------------------------------------------
-- What comes of an interview
-----------------------------------------------------------------------------------------

/-- What has happened that belongs to the search for a name. -/
def attempts (timeline : Timeline σ) : List Event :=
  (timeline.trace.reverse.map Moment.event).filter Event.isAttempt

theorem attempts_sitting (creator : Creator) (job : Job) (phase : Phase) (state : σ)
    (answerAt : Nat) (prompt : Dialogue) (events : List Event) (notes : Log)
    : (sitting creator job phase state answerAt prompt events notes).attempts
      = events.filter Event.isAttempt := by
  have same : Moment.event ∘ Moment.mk 0 0 = id := rfl
  simp [attempts, sitting, same]

theorem Onward.attempts_eq {timeline next : Timeline σ} (onward : Onward timeline next)
    : next.attempts = timeline.attempts := by
  obtain ⟨more, trace, quiet⟩ := onward.trace
  have nothing : (more.reverse.map Moment.event).filter Event.isAttempt = [] := by
    simpa [List.filter_eq_nil_iff] using quiet
  rw [attempts, trace, List.reverse_append, List.map_append, List.filter_append, nothing,
    List.append_nil]
  rfl

/-- A timeline has ended as an interview says, which began after some events and with a prompt. -/
structure Concludes (world : World σ) (creator : Creator) (dialect : Dialect)
    (before : List Event) (prompt : Dialogue) (interview : Interview σ) (last : Timeline σ)
    : Prop where
  attempts : last.attempts = before ++ interview.events creator.root dialect
  shown : (last.visitor 0).prompt.shown = (prompt.told interview.shown).shown
  cancelled (nobody : interview.chosen = none) : last.outcome? 0 = some (.error .noName)
  goesOn (name : String) (state : σ) (chosen : interview.chosen = some (name, state))
    : ∃ outcome twin, last.outcome? 0 = some outcome
        ∧ (Phase.settled outcome).isBehindStart = true
        ∧ Ends world (start creator state [(.named dialect name, {})]) twin
        ∧ twin.outcome? 0 = some outcome

section

variable {creator : Creator} {dialect : Dialect} {before : List Event} {prompt left : Dialogue}
  {interview : Interview σ} {last : Timeline σ}

/-- An interview may begin earlier, with a text that was shown before. -/
theorem Concludes.after {text : String} (refusing : left.refusing = prompt.refusing)
    (shown : left.shown = (prompt.told text).shown)
    (concludes : Concludes world creator dialect before left interview last)
    : Concludes world creator dialect before prompt (interview.after text) last where
  attempts := concludes.attempts
  shown := by
    have tells := @Dialogue.shown_told_congr left (prompt.told text) refusing shown interview.shown
    rw [concludes.shown, tells, Dialogue.told_told]
    rfl
  cancelled := concludes.cancelled
  goesOn := concludes.goesOn

/-- A request that gets no answer ends at once. -/
theorem Concludes.of_cancelled {state : σ} {answerAt : Nat} {events : List Event} {notes : Log}
    (ends : Ends world ((sitting creator (.unnamed dialect) .asking state answerAt prompt events
      notes).perform world 0 (.deliver 0 (.answered none))) last)
    : Concludes world creator dialect (events.filter Event.isAttempt) prompt {} last := by
  obtain rfl := Ends.unique ⟨0, rfl, rfl⟩ ends
  have attempts := attempts_sitting creator (.unnamed dialect) .asking state answerAt prompt events
    notes
  refine ⟨attempts.trans (List.append_nil _).symm, ?_, fun _ => rfl, nofun⟩
  rw [Dialogue.told_empty]
  rfl

/-- An interview may begin with a failure, after which the user was asked again. -/
theorem Concludes.failing {name : String} {reason : GeneratorError}
    (concludes : Concludes world creator dialect
      (before ++ Interview.failed creator.root dialect (name, reason))
      (prompt.told s!"⚠️ {reason.chain}\n") interview last)
    : Concludes world creator dialect before prompt (interview.failing name reason) last where
  attempts := by
    rw [concludes.attempts, List.append_assoc]
    rfl
  shown := by
    rw [concludes.shown, Dialogue.told_told]
    rfl
  cancelled := concludes.cancelled
  goesOn := concludes.goesOn

section

variable {state : σ} {name : String} {answerAt : Nat} {events : List Event} {notes : Log}
  (accepted : RouteName.check (world.tree state) creator.root dialect name = .ok ())

include accepted

/-- A request whose generator has been started ends like one for that name. -/
theorem Concludes.of_launched {later : σ} {log : Log}
    (dispatched : world.dispatch 0 (.of creator.root dialect name) state = (later, .ok (), log))
    (ends : Ends world (launched world creator (.unnamed dialect) (.of creator.root dialect name)
      later prompt (events ++ Interview.accepting creator.root dialect name) notes) last)
    : Concludes world creator dialect (events.filter Event.isAttempt) prompt
        { chosen := some (name, state) } last := by
  obtain ⟨events', notes', named⟩ := ends_of_launched accepted dispatched
  obtain ⟨phase, guise, same, twins⟩ := twins_launched
  obtain ⟨reached, after, ends', twins, onward⟩ := twins.ends ends
  rw [same] at ends'
  obtain ⟨outcome, left, right, behind⟩ := twins.outcome_eq ends.stopped
  obtain ⟨start, finished, visitors⟩ := onward.prompt prompt ⟨0, none, rfl⟩
  refine ⟨?_, ?_, nofun, ?_⟩
  · rw [onward.attempts_eq, launched, attempts_sitting, List.filter_append, List.filter_append,
      List.append_assoc]
    rfl
  · rw [visitor, visitors, Dialogue.told_empty]
    rfl
  · rintro name state ⟨⟩
    exact ⟨outcome, _, left, behind, named _ ends', right⟩

/-- A request with an accepted answer has the generator started, and asks again if that fails. -/
theorem Concludes.of_answered {again : σ → Interview σ}
    (ends : Ends world ((sitting creator (.unnamed dialect) .asking state answerAt prompt events
      notes).perform world 0 (.deliver 0 (.answered (some name)))) last)
    (asks : ∀ {later : σ} {told : Dialogue} {more : List Event} {notes : Log},
      Ends world (sitting creator (.unnamed dialect) .asking later answerAt told more notes) last →
      told.lines = prompt.lines →
      Concludes world creator dialect (more.filter Event.isAttempt) told (again later) last)
    : Concludes world creator dialect (events.filter Event.isAttempt) prompt
        (world.attempt creator.root dialect name again state) last := by
  obtain ⟨note, offered⟩ := @offer_eq_of_accepted creator _ _ _ accepted
  have reacts : creator.react (world.tree state) 0 (.unnamed dialect) .asking
    (.answered (some name)) = _ := offered
  rw [perform_sitting reacts fun _ => nofun] at ends
  rw [World.attempt]
  cases dispatched : world.dispatch 0 (.of creator.root dialect name) state with
  | mk later reply =>
      obtain ⟨outcome, log⟩ := reply
      cases outcome with
      | ok =>
          exact .of_launched accepted dispatched
            (ends.after_step (step_dispatching_ok dispatched))
      | error reason =>
          obtain ⟨notes', fails⟩ := step_dispatching_error dispatched
          have concludes := asks (ends.after_step fails) rfl
          rw [List.append_assoc, List.filter_append] at concludes
          exact .failing concludes

end

/-- A request that waits for an answer ends as the interview says, by induction on the lines that
are still to be read.
-/
theorem concludes_sitting {events : List Event} {notes : Log} {answerAt : Nat} {state : σ}
    (ends : Ends world
      (sitting creator (.unnamed dialect) .asking state answerAt prompt events notes) last)
    : Concludes world creator dialect (events.filter Event.isAttempt) prompt
        (world.interview creator.root dialect (Dialogue.answers prompt.lines) state) last := by
  induction count : prompt.lines.length using Nat.strong_induction_on
    generalizing prompt events notes state with
  | _ count ih =>
      obtain ⟨refused, answered⟩ := Dialogue.answered_ask (Creator.question dialect)
        (RouteName.check (world.tree state) creator.root dialect) prompt
      have fewer := prompt.lines_ask_le (Creator.question dialect)
        (RouteName.check (world.tree state) creator.root dialect)
      cases asked : prompt.ask (Creator.question dialect)
        (RouteName.check (world.tree state) creator.root dialect) with
      | mk answer left log =>
          rw [asked] at answered fewer
          have ends := ends.after_step (step_asking asked)
          cases answer with
          | none =>
              rw [answered.noMore rfl, ← List.append_nil (refused.map _),
                World.interview_refused answered.refuses, World.interview, Interview.after_after]
              exact .after answered.refusing answered.shown (.of_cancelled ends)
          | some name =>
              obtain ⟨accepted, more⟩ := answered.accepted name rfl
              rw [more, World.interview_refused answered.refuses, World.interview,
                Interview.after_after, accepted]
              refine .after answered.refusing answered.shown (.of_answered accepted ends ?_)
              intro later told more notes ends lines
              have shorter : left.lines.length < prompt.lines.length := fewer
              rw [← lines] at shorter ⊢
              exact ih _ (count ▸ shorter) ends rfl

-----------------------------------------------------------------------------------------
-- Requests for a route that the user names
-----------------------------------------------------------------------------------------

/-- The artifacts that the generator was to be started for, in their order. -/
def artifacts (timeline : Timeline σ) : List Artifact :=
  (timeline.trace.reverse.map Moment.event).filterMap Event.artifact?

theorem artifacts_eq (timeline : Timeline σ)
    : timeline.artifacts = timeline.attempts.filterMap Event.artifact? := by
  rw [artifacts, attempts, List.filterMap_filter]
  congr
  funext event
  cases event <;> rfl

/-- How a request for a route that the user names ends. -/
structure Interviewed (world : World σ) (creator : Creator) (dialect : Dialect)
    (prompt : Dialogue) (interview : Interview σ) (last : Timeline σ)
    : Prop where
  /-- Nothing happens that belongs to the search for a name but what the interview says. -/
  attempts : last.attempts = .asked :: interview.events creator.root dialect
  /-- The generator is started for the names, each of which is an answer of its own. -/
  artifacts : last.artifacts = interview.names.map (.of creator.root dialect)
  inOrder : interview.names.Sublist (Dialogue.answers prompt.lines)
  few : last.artifacts.length ≤ prompt.lines.length
  shown : (last.visitor 0).prompt.shown = (prompt.told interview.shown).shown
  /-- There is no route if the generator has been started for none of them. -/
  cancelled (nobody : interview.chosen = none) : last.outcome? 0 = some (.error .noName)
  /-- Otherwise it goes on like a request for the name that the generator has been started for,
  and is completed or too late.
  -/
  goesOn (name : String) (state : σ) (chosen : interview.chosen = some (name, state))
    : last.outcome? 0 = ((start creator state [(.named dialect name, {})]).finish world).outcome? 0
      ∧ ((∃ route, last.outcome? 0 = some (.ok route))
        ∨ ∃ awaited fileName time,
            last.outcome? 0 = some (.error (.tooLate awaited fileName time)))

/-- A request for a route that the user names always ends, by an interview with the lines of the
input.
-/
theorem interviewed_finish (positive : 0 < creator.timings.interval) (world : World σ) (state : σ)
    (dialect : Dialect) (input : Bytes) (refusing : Bool)
    : Interviewed world creator dialect (.ofInput input refusing)
        (world.interview creator.root dialect (Dialogue.answers (Dialogue.split input)) state)
        ((start creator state
          [(.unnamed dialect, { prompt := .ofInput input refusing })]).finish world) := by
  have ends := ends_finish positive world state (.unnamed dialect) (.ofInput input refusing)
  obtain ⟨queued, comes, begins⟩ := @step_start σ world creator (.unnamed dialect) state
    (.ofInput input refusing) .asking [.asked] [] rfl fun _ => nofun
  have concludes := concludes_sitting ((ends.after_step comes).after_step begins)
  have inOrder := world.names_interview_sublist creator.root dialect
    (Dialogue.answers (Dialogue.split input)) state
  have artifacts := artifacts_eq ((start creator state
    [(.unnamed dialect, { prompt := .ofInput input refusing })]).finish world)
  rw [concludes.attempts, List.filterMap_append, Interview.artifacts_events] at artifacts
  refine ⟨concludes.attempts, artifacts, inOrder, ?_, concludes.shown, concludes.cancelled, ?_⟩
  · rw [artifacts, List.length_append, List.length_map]
    exact (Nat.zero_add _).le.trans (inOrder.length_le.trans (Dialogue.length_answers_le _))
  · intro name state chosen
    obtain ⟨outcome, twin, settled, behind, ends', settled'⟩ := concludes.goesOn name state chosen
    have finishes := ends_finish positive world state (.named dialect name) { lines := [] }
    obtain rfl := ends'.unique finishes
    refine ⟨settled.trans settled'.symm, ?_⟩
    rw [settled]
    cases outcome with
    | ok route => exact .inl ⟨route, rfl⟩
    | error reason =>
        cases reason with
        | tooLate awaited fileName time => exact .inr ⟨awaited, fileName, time, rfl⟩
        | _ => cases behind

end

/-- A workshop whose generator does not start for the first name. -/
def secondTry : Rehearsal where
  tree := default
  root := .ofText "/work"
  plans := [{ failure := some (.toolNotFound "jbang") },
    { foundAfter := some 0, shownAfter := some 0 }]

/-- Answers of which the second has an extension. -/
def threeAnswers : Bytes :=
  .ofText "first\na.b\nsecond\n"

/-- The generator does not start for the first answer, and starts for the third. -/
theorem interviewed_finish_secondTry
    : 0 < Timings.interval {}
      ∧ (Rehearsal.world.interview (.ofText "/work") .yaml
          (Dialogue.answers (Dialogue.split threeAnswers)) secondTry).names = ["first", "second"]
      ∧ Interviewed Rehearsal.world { root := .ofText "/work" } .yaml (.ofInput threeAnswers false)
        (Rehearsal.world.interview (.ofText "/work") .yaml
          (Dialogue.answers (Dialogue.split threeAnswers)) secondTry)
        ((start { root := .ofText "/work" } secondTry
          [(.unnamed .yaml, { prompt := .ofInput threeAnswers false })]).finish Rehearsal.world) :=
  ⟨by decide, by decide +kernel,
    interviewed_finish (by decide) Rehearsal.world secondTry .yaml threeAnswers false⟩

end Timeline

end RouteDesk
