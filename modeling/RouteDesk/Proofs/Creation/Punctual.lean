import RouteDesk.Proofs.Creation.Schedules
import RouteDesk.Proofs.Creation.Arrivals

/-! A single request in a world that follows a schedule. At every step it stands where the schedule
puts it, so that what comes of it, and when, is what the schedule says.
-/

namespace RouteDesk

open Polling

/-- The generator was started. -/
def Event.isStart : Event → Bool
  | .dispatched (.ok ()) => true
  | _ => false

/-- The editor was looked at. -/
def Event.isLook : Event → Bool
  | .looked _ => true
  | _ => false

namespace Timeline

variable {σ : Type} {world : World σ} {timeline middle next : Timeline σ}

-----------------------------------------------------------------------------------------
-- Moments
-----------------------------------------------------------------------------------------

/-- The moments, in order, at which something of a kind has happened. -/
def times (timeline : Timeline σ) (isSo : Event → Bool) : List Nat :=
  (timeline.trace.reverse.filter fun moment => isSo moment.event).map Moment.time

/-- What happens in an action happens now. -/
theorem Heeds.times {session : Session} {events heeded : List Event} {log : Log}
    (heeds : Heeds world (middle.acted session events log) heeded next) (isSo : Event → Bool)
    : next.times isSo
      = middle.times isSo ++ (events.filter isSo).map fun _ => middle.now := by
  have trace : next.trace = (events.map (Moment.mk middle.now 0)).reverse ++ middle.trace :=
    heeds.trace
  rw [Timeline.times, trace, List.reverse_append, List.reverse_reverse, List.filter_append,
    List.map_append, List.filter_map, List.map_map]
  rfl

theorem Heeds.times_eq {session : Session} {events heeded : List Event} {log : Log}
    (heeds : Heeds world (middle.acted session events log) heeded next) {isSo : Event → Bool}
    (quiet : events.filter isSo = [])
    : next.times isSo = middle.times isSo := by
  rw [heeds.times, quiet]
  exact List.append_nil _

-----------------------------------------------------------------------------------------
-- Where a request stands
-----------------------------------------------------------------------------------------

section

variable (creator : Creator) (schedule : Schedule) (artifact : Artifact) (began : Nat)

/-- When the file is found that a search finds. -/
def foundAt (index : Nat) : Nat :=
  began + answerOf (waited creator.timings.interval) schedule.searches index

/-- The generator has not been started yet, but is about to be. -/
structure Unstarted (ready : σ → Prop) (timeline : Timeline σ) : Prop where
  unstarted : timeline.times Event.isStart = []
  unlooked : timeline.times Event.isLook = []
  now : timeline.now = began
  before : ready timeline.world

/-- So many searches have been in vain, and the time for the file is not over. -/
structure AwaitsFile (past : Nat → σ → Prop) (index : Nat) (timeline : Timeline σ) : Prop where
  started : timeline.times Event.isStart = [began]
  unlooked : timeline.times Event.isLook = []
  vain : AllVain schedule.searches index
  after : past index timeline.world
  inTime : timeline.now ≤ began + creator.timings.fileTime

/-- A search has found a single file, so many looks at the editor have been in vain, and the time
for the editor is not over.
-/
structure AwaitsFocus (past : Nat → σ → Prop) (index : Nat) (found : Path) (look : Nat)
    (timeline : Timeline σ)
    : Prop where
  started : timeline.times Event.isStart = [began]
  looked : timeline.times Event.isLook = (List.range look).map
    (foundAt creator schedule began index + · * waited creator.timings.interval)
  first : IsFirst schedule.searches index found
  within : answerOf (waited creator.timings.interval) schedule.searches index
    ≤ creator.timings.fileTime
  vain : AllVain (schedule.looks artifact.fileName (waited creator.timings.interval)
    (foundAt creator schedule began index)) look
  after : past (index + 1) timeline.world
  answered : timeline.answerAt ≤ timeline.now
  inTime : timeline.now
    ≤ foundAt creator schedule began index + creator.timings.focusTime

/-- What has come of a request and when: it failed before its generator was started, or it has fared
as the schedule says since then.
-/
def Fares (timings : Timings) (pause : Nat) (timeline : Timeline σ)
    (outcome : Except CreationError CreatedRoute) (finish : Nat)
    : Prop :=
  (timeline.times Event.isStart = []
      ∧ ∃ error, outcome = .error error ∧ error.awaited? = none)
    ∨ timeline.times Event.isStart = [began]
      ∧ Punctual timings pause schedule artifact began outcome finish
        (timeline.times Event.isLook)

/-- How far a request has come, by what it is waiting for. -/
inductive Stands (ready : σ → Prop) (past : Nat → σ → Prop) : CallState → Timeline σ → Prop
  | comes {timeline : Timeline σ} (unstarted : Unstarted began ready timeline)
    : Stands ready past .queued timeline
  | starts {timeline : Timeline σ} (unstarted : Unstarted began ready timeline)
    : Stands ready past (.active (.dispatching artifact)) timeline
  | searches {timeline : Timeline σ} {index : Nat}
    (awaits : AwaitsFile creator schedule began past index timeline)
    (searchedAt : timeline.searchedAt
      = began + startOf (waited creator.timings.interval) schedule.searches index)
    (answerAt : timeline.answerAt = foundAt creator schedule began index)
    (early : timeline.now ≤ timeline.answerAt)
    (spared : timeline.searchedAt < timeline.now → 0 < timeline.spare)
    : Stands ready past
        (.active (.evaluating (.file artifact (began + creator.timings.fileTime)))) timeline
  | restsForFile {timeline : Timeline σ} {index wake : Nat}
    (awaits : AwaitsFile creator schedule began past index timeline)
    (wakes : wake = began + startOf (waited creator.timings.interval) schedule.searches index)
    (early : timeline.now ≤ wake) (spared : wake ≤ timeline.now → 0 < timeline.spare)
    : Stands ready past
        (.active (.resting (.file artifact (began + creator.timings.fileTime)) wake))
        timeline
  | looks {timeline : Timeline σ} {index look : Nat} {found : Path}
    (awaits : AwaitsFocus creator schedule artifact began past index found look timeline)
    (now : timeline.now
      = foundAt creator schedule began index + look * waited creator.timings.interval)
    : Stands ready past
        (.active (.evaluating (.focus artifact found
          (foundAt creator schedule began index + creator.timings.focusTime)))) timeline
  | restsForFocus {timeline : Timeline σ} {index look wake : Nat} {found : Path}
    (awaits : AwaitsFocus creator schedule artifact began past index found (look + 1) timeline)
    (wakes : wake
      = foundAt creator schedule began index + (look + 1) * waited creator.timings.interval)
    (early : timeline.now ≤ wake) (spared : wake ≤ timeline.now → 0 < timeline.spare)
    : Stands ready past
        (.active (.resting (.focus artifact found
          (foundAt creator schedule began index + creator.timings.focusTime)) wake))
        timeline
  | settles {timeline : Timeline σ} {outcome : Except CreationError CreatedRoute} {finish : Nat}
    (finished : (timeline.visitor 0).finished = some finish)
    (fares : Fares schedule artifact began creator.timings (waited creator.timings.interval)
      timeline outcome finish)
    : Stands ready past (.settled outcome) timeline

end

section

variable {creator : Creator} {schedule : Schedule} {artifact : Artifact} {began : Nat}
  {ready : σ → Prop} {past : Nat → σ → Prop} {state : CallState} {job : Job}

/-- Rounds of visits change nothing, as long as they do not leave fewer waits. -/
theorem Stands.again (stands : Stands creator schedule artifact began ready past state timeline)
    {cursor spare : Nat} {moved : Bool} (spared : 0 < timeline.spare → 0 < spare)
    : Stands creator schedule artifact began ready past state
        { timeline with cursor, moved, spare } := by
  cases stands with
  | comes unstarted => exact .comes { unstarted with }
  | starts unstarted => exact .starts { unstarted with }
  | searches awaits searchedAt answerAt early spared' =>
      exact .searches { awaits with } searchedAt answerAt early (spared <| spared' ·)
  | restsForFile awaits wakes early spared' =>
      exact .restsForFile { awaits with } wakes early (spared <| spared' ·)
  | looks awaits now => exact .looks { awaits with } now
  | restsForFocus awaits wakes early spared' =>
      exact .restsForFocus { awaits with } wakes early (spared <| spared' ·)
  | settles finished fares => exact .settles finished fares

/-- No more time passes than until something is due. -/
theorem Stands.later
    (follows : Follows world schedule (waited creator.timings.interval) began artifact ready past)
    (single : Single creator job state timeline)
    (stands : Stands creator schedule artifact began ready past state timeline)
    {moment due : Nat} {later : σ} {log : Log} (turn : timeline.turnDue? = some due)
    (passes : timeline.now < moment) (early : moment ≤ due)
    (advances : world.advance moment timeline.world = (later, log))
    : Stands creator schedule artifact began ready past state
        { (timeline.noted log).newRound with world := later, now := moment } := by
  have spared : 0 < waitsInARow := Nat.zero_lt_succ _
  cases stands with
  | searches awaits searchedAt answerAt early' _ =>
      obtain rfl := Option.some.inj (single.turnDue_evaluating.symm.trans turn)
      obtain ⟨soon, inTime⟩ := Nat.le_min.mp early
      exact .searches { awaits with after := follows.goesOn awaits.after advances, inTime }
        searchedAt answerAt soon fun _ => spared
  | restsForFile awaits wakes early' _ =>
      obtain rfl := Option.some.inj (single.turnDue_resting.symm.trans turn)
      obtain ⟨soon, inTime⟩ := Nat.le_min.mp early
      exact .restsForFile { awaits with after := follows.goesOn awaits.after advances, inTime }
        wakes soon fun _ => spared
  | looks awaits now =>
      obtain rfl := Option.some.inj (single.turnDue_evaluating.symm.trans turn)
      have answered := awaits.answered
      omega
  | restsForFocus awaits wakes early' _ =>
      obtain rfl := Option.some.inj (single.turnDue_resting.symm.trans turn)
      obtain ⟨soon, inTime⟩ := Nat.le_min.mp early
      exact .restsForFocus { awaits with
        after := follows.goesOn awaits.after advances
        answered := awaits.answered.trans (Nat.le_of_lt passes)
        inTime } wakes soon fun _ => spared
  | settles finished fares => exact .settles finished fares
  | comes | starts =>
      obtain ⟨watch, waits, -⟩ := single.watch_of_turnDue turn
      rcases waits with same | ⟨wake, same⟩ <;> cases same

-----------------------------------------------------------------------------------------
-- Replies
-----------------------------------------------------------------------------------------

/-- What a reaction to a reply makes of the timeline of a single request. -/
structure Reacts (world : World σ) (creator : Creator) (job : Job) (timeline middle : Timeline σ)
    (reaction : Reaction) (next : Timeline σ)
    : Prop where
  heeds : Heeds world
    (middle.acted (.single creator job reaction.phase.state) reaction.events reaction.log)
    reaction.events next
  finishes (over' : reaction.phase.state.isOver = true)
    : (next.visitor 0).finished = some timeline.now

/-- A search of a file that begins in time. -/
theorem Stands.of_begins
    (follows : Follows world schedule (waited creator.timings.interval) began artifact ready past)
    {index : Nat} (awaits : AwaitsFile creator schedule began past index next)
    (begins : Begins world middle next) (same : next.world = middle.world)
    (now : next.now = middle.now)
    (starts : middle.now
      = began + startOf (waited creator.timings.interval) schedule.searches index)
    : Stands creator schedule artifact began ready past
        (.active (.evaluating (.file artifact (began + creator.timings.fileTime))))
        next := by
  have answerAt : next.answerAt = foundAt creator schedule began index := by
    rw [begins.answerAt, starts, ← same, follows.takes awaits.after, foundAt, answerOf,
      Nat.add_assoc, Schedule.searches]
  refine .searches awaits (begins.searchedAt.trans starts) answerAt ?_ ?_
  · rw [answerAt, now, starts, foundAt]
    exact Nat.add_le_add_left startOf_le_answerOf began
  · rw [begins.searchedAt, now]
    exact fun later => absurd later (Nat.lt_irrefl _)

/-- The name is checked, and the generator is to be started if it is accepted. -/
theorem Unstarted.offer {dialect : Dialect} {name : String} {tree : FileTree}
    (unstarted : Unstarted began ready middle)
    (reacts : Reacts world creator job timeline middle (creator.offer tree dialect name) next)
    : Stands creator schedule (.of creator.root dialect name) began ready past
        (creator.offer tree dialect name).phase.state next := by
  obtain ⟨heeds, finishes⟩ := reacts
  revert heeds finishes
  unfold Creator.offer
  dsimp only
  split
  case h_1 =>
    intro heeds finishes
    exact .settles (finishes rfl)
      (.inl ⟨(heeds.times_eq rfl).trans unstarted.unstarted, _, rfl, rfl⟩)
  case h_2 =>
    intro heeds finishes
    exact .starts {
      unstarted := (heeds.times_eq rfl).trans unstarted.unstarted
      unlooked := (heeds.times_eq rfl).trans unstarted.unlooked
      now := heeds.now.trans unstarted.now
      before := by rw [heeds.world]; exact unstarted.before }

/-- The first search begins just when the generator has been started. -/
theorem Unstarted.dispatched
    (follows : Follows world schedule (waited creator.timings.interval) began artifact ready past)
    (unstarted : Unstarted began ready timeline) {dialect : Dialect} {name : String} {state : σ}
    {outcome : Except GeneratorError Unit} {log : Log}
    (dispatched : world.dispatch timeline.now artifact timeline.world = (state, outcome, log))
    {tree : FileTree}
    (reacts : Reacts world creator (.named dialect name) timeline
      { timeline.noted log with world := state }
      (creator.react tree timeline.now (.named dialect name) (.dispatching artifact)
        (.dispatched outcome)) next)
    : Stands creator schedule artifact began ready past
        (creator.react tree timeline.now (.named dialect name) (.dispatching artifact)
          (.dispatched outcome)).phase.state next := by
  obtain ⟨heeds, finishes⟩ := reacts
  have now := unstarted.now
  cases outcome with
  | error reason =>
      exact .settles (finishes rfl)
        (.inl ⟨(heeds.times_eq rfl).trans unstarted.unstarted, _, rfl, rfl⟩)
  | ok =>
      have begins := heeds.began artifact.fileName (by simp [Creator.react])
      have started : next.times Event.isStart = timeline.times Event.isStart ++ [timeline.now] :=
        heeds.times _
      have after : past 0 next.world := by
        rw [heeds.world]
        exact follows.starts unstarted.before (now ▸ dispatched)
      have stands : AwaitsFile creator schedule began past 0 next := {
        started := by rw [started, unstarted.unstarted, now, List.nil_append]
        unlooked := (heeds.times_eq rfl).trans unstarted.unlooked
        vain := .zero _
        after
        inTime := by
          rw [heeds.now]
          exact (Nat.le_of_eq now).trans (Nat.le_add_right _ _) }
      rw [← now] at stands follows ⊢
      exact .of_begins follows stands begins heeds.world heeds.now rfl

/-- Only a search that finds a single file ends the watch for it. -/
theorem onSearched_eq (creator : Creator) (now : Nat) (artifact : Artifact) (deadline : Nat)
    (outcome : Except String (List Path))
    : ∃ log,
        match Schedule.single? outcome with
        | some found =>
          creator.onSearched now artifact deadline outcome
            = ⟨.evaluating (.focus artifact found (now + creator.timings.focusTime)),
                [.searched outcome], log⟩
        | none =>
          creator.onSearched now artifact deadline outcome
            = ⟨.resting (.file artifact deadline) (now + waited creator.timings.interval),
                [.searched outcome], log⟩ := by
  cases outcome with
  | error reason => exact ⟨_, rfl⟩
  | ok found =>
      match found with
      | [] => exact ⟨_, rfl⟩
      | [path] => exact ⟨_, rfl⟩
      | path :: other :: rest => exact ⟨_, rfl⟩

/-- A search that is answered in time finds the file, or is followed by a pause. -/
theorem AwaitsFile.searched (positive : 0 < creator.timings.interval)
    (follows : Follows world schedule (waited creator.timings.interval) began artifact ready past)
    {index : Nat} (awaits : AwaitsFile creator schedule began past index timeline)
    (now : timeline.now = foundAt creator schedule began index)
    (answered : timeline.answerAt ≤ timeline.now) {spare : Nat} {state : σ}
    {outcome : Except String (List Path)}
    (searched : world.search artifact.fileName timeline.now timeline.world = (state, outcome))
    (reacts : Reacts world creator job timeline { timeline with spare, world := state }
      (creator.onSearched timeline.now artifact (began + creator.timings.fileTime) outcome)
      next)
    : Stands creator schedule artifact began ready past
        (creator.onSearched timeline.now artifact (began + creator.timings.fileTime)
          outcome).phase.state next := by
  rw [now] at searched
  obtain ⟨rfl, after⟩ := follows.answers awaits.after searched
  obtain ⟨log, reaction⟩ := onSearched_eq creator timeline.now artifact
    (began + creator.timings.fileTime) (schedule.found index)
  cases yields : Schedule.single? (schedule.found index) with
  | some found =>
      simp only [yields] at reaction
      rw [reaction] at reacts ⊢
      obtain ⟨heeds, -⟩ := reacts
      have answerAt : next.answerAt = timeline.answerAt := (heeds.still (by simp)).2
      have same : next.now = timeline.now := heeds.now
      have within := awaits.inTime
      rw [now, foundAt] at within
      change Stands creator schedule artifact began ready past (.active (.evaluating
        (.focus artifact found (timeline.now + creator.timings.focusTime)))) next
      rw [now]
      have stands : AwaitsFocus creator schedule artifact began past index found 0 next := {
        started := (heeds.times_eq rfl).trans awaits.started
        looked := (heeds.times_eq rfl).trans awaits.unlooked
        first := ⟨yields, awaits.vain⟩
        within := Nat.le_of_add_le_add_left within
        vain := .zero _
        after := by rw [heeds.world]; exact after
        answered := by rw [answerAt, same]; exact answered
        inTime := by rw [same, now]; exact Nat.le_add_right _ _ }
      exact .looks stands (by rw [same, now, Nat.zero_mul, Nat.add_zero])
  | none =>
      simp only [yields] at reaction
      rw [reaction] at reacts ⊢
      obtain ⟨heeds, -⟩ := reacts
      have same : next.now = timeline.now := heeds.now
      have pause := waited_pos positive
      have stands : AwaitsFile creator schedule began past (index + 1) next := {
        started := (heeds.times_eq rfl).trans awaits.started
        unlooked := (heeds.times_eq rfl).trans awaits.unlooked
        vain := awaits.vain.succ yields
        after := by rw [heeds.world]; exact after
        inTime := by rw [same]; exact awaits.inTime }
      refine .restsForFile stands ?_ ?_ ?_
      · rw [now, foundAt, ← answerOf_add_pause, Nat.add_assoc]
      · rw [same]
        exact Nat.le_add_right _ _
      · rw [same]
        omega

/-- A search begins just when a pause is over. -/
theorem AwaitsFile.rested
    (follows : Follows world schedule (waited creator.timings.interval) began artifact ready past)
    {index : Nat} (awaits : AwaitsFile creator schedule began past index timeline)
    (now : timeline.now
      = began + startOf (waited creator.timings.interval) schedule.searches index) {spare : Nat}
    {log : Log}
    (reacts : Reacts world creator job timeline { timeline with spare }
      ⟨.evaluating (.file artifact (began + creator.timings.fileTime)),
        [.searching artifact.fileName], log⟩ next)
    : Stands creator schedule artifact began ready past
        (.active (.evaluating (.file artifact (began + creator.timings.fileTime))))
        next := by
  obtain ⟨heeds, -⟩ := reacts
  have same : next.now = timeline.now := heeds.now
  refine .of_begins follows ?_ (heeds.began _ List.mem_cons_self) heeds.world heeds.now now
  exact {
    started := (heeds.times_eq rfl).trans awaits.started
    unlooked := (heeds.times_eq rfl).trans awaits.unlooked
    vain := awaits.vain
    after := by rw [heeds.world]; exact awaits.after
    inTime := by rw [same]; exact awaits.inTime }

/-- The time for the file is over before a search in time has found it. -/
theorem AwaitsFile.expired {index : Nat}
    (awaits : AwaitsFile creator schedule began past index timeline)
    (over' : began + creator.timings.fileTime ≤ timeline.now)
    (late : creator.timings.fileTime
      < answerOf (waited creator.timings.interval) schedule.searches index) {log : Log}
    (reacts : Reacts world creator job timeline timeline
      ⟨.settled (.error (.tooLate .file artifact.fileName (.ofMillis creator.timings.fileTime))),
        [], log⟩ next)
    : Stands creator schedule artifact began ready past
        (.settled (.error (.tooLate .file artifact.fileName (.ofMillis creator.timings.fileTime))))
        next := by
  obtain ⟨heeds, finishes⟩ := reacts
  have finished := finishes rfl
  rw [Nat.le_antisymm awaits.inTime over'] at finished
  refine .settles finished (.inr ⟨(heeds.times_eq rfl).trans awaits.started, ?_⟩)
  rw [heeds.times_eq rfl, awaits.unlooked]
  exact .of_inVain began (awaits.vain.inVain late)

theorem map_range_succ (count since pause : Nat)
    : (List.range (count + 1)).map (since + · * pause)
      = (List.range count).map (since + · * pause) ++ [since + count * pause] := by
  rw [List.range_succ, List.map_append]
  rfl

/-- A look at the editor that is in time shows the document, or is followed by a pause. -/
theorem AwaitsFocus.looks (positive : 0 < creator.timings.interval)
    (follows : Follows world schedule (waited creator.timings.interval) began artifact ready past)
    {index look : Nat} {found : Path}
    (awaits : AwaitsFocus creator schedule artifact began past index found look timeline)
    (now : timeline.now
      = foundAt creator schedule began index + look * waited creator.timings.interval)
    (reacts : Reacts world creator job timeline timeline
      (creator.onLooked timeline.now artifact found
        (foundAt creator schedule began index + creator.timings.focusTime)
        (world.focused timeline.now timeline.world)) next)
    : Stands creator schedule artifact began ready past
        (creator.onLooked timeline.now artifact found
          (foundAt creator schedule began index + creator.timings.focusTime)
          (world.focused timeline.now timeline.world)).phase.state next := by
  have shows := follows.shows awaits.after timeline.now
  have pause := waited_pos positive
  obtain ⟨heeds, finishes⟩ := reacts
  rw [shows] at heeds finishes ⊢
  revert heeds finishes
  unfold Creator.onLooked
  split
  case isTrue shown =>
    intro heeds finishes
    have looked : next.times Event.isLook = timeline.times Event.isLook ++ [timeline.now] :=
      heeds.times _
    have finished := finishes rfl
    rw [now] at finished
    refine .settles finished (.inr ⟨(heeds.times_eq rfl).trans awaits.started, ?_⟩)
    rw [looked, awaits.looked, now, ← map_range_succ]
    refine .of_first awaits.first awaits.within (.of_first ⟨?_, awaits.vain⟩ ?_)
    · rw [Schedule.looks, Schedule.shows, ← foundAt, ← now, shown]
      rfl
    · have inTime := awaits.inTime
      rw [now] at inTime
      exact Nat.le_of_add_le_add_left inTime
  case isFalse hidden =>
    intro heeds finishes
    have looked : next.times Event.isLook = timeline.times Event.isLook ++ [timeline.now] :=
      heeds.times _
    have same : next.now = timeline.now := heeds.now
    have answerAt : next.answerAt = timeline.answerAt := (heeds.still (by simp)).2
    have stands
        : AwaitsFocus creator schedule artifact began past index found (look + 1) next := {
      started := (heeds.times_eq rfl).trans awaits.started
      looked := by rw [looked, awaits.looked, map_range_succ, now]
      first := awaits.first
      within := awaits.within
      vain := awaits.vain.succ (by
        rw [Schedule.looks, Schedule.shows, ← now]
        simp [Check.evaluation, hidden])
      after := by rw [heeds.world]; exact awaits.after
      answered := by rw [answerAt, same]; exact awaits.answered
      inTime := by rw [same]; exact awaits.inTime }
    refine .restsForFocus stands ?_ ?_ ?_
    · rw [now, Nat.succ_mul, ← Nat.add_assoc]
    · rw [same]
      exact Nat.le_add_right _ _
    · rw [same]
      omega

/-- The editor is looked at just when a pause is over. -/
theorem AwaitsFocus.rested {index look : Nat} {found : Path}
    (awaits : AwaitsFocus creator schedule artifact began past index found look timeline)
    (now : timeline.now
      = foundAt creator schedule began index + look * waited creator.timings.interval)
    {spare : Nat} {log : Log}
    (reacts : Reacts world creator job timeline { timeline with spare }
      ⟨.evaluating (.focus artifact found
        (foundAt creator schedule began index + creator.timings.focusTime)), [], log⟩ next)
    : Stands creator schedule artifact began ready past
        (.active (.evaluating (.focus artifact found
          (foundAt creator schedule began index + creator.timings.focusTime)))) next := by
  obtain ⟨heeds, -⟩ := reacts
  have same : next.now = timeline.now := heeds.now
  have answerAt : next.answerAt = timeline.answerAt := (heeds.still (by simp)).2
  refine .looks ?_ (same.trans now)
  exact {
    started := (heeds.times_eq rfl).trans awaits.started
    looked := (heeds.times_eq rfl).trans awaits.looked
    first := awaits.first
    within := awaits.within
    vain := awaits.vain
    after := by rw [heeds.world]; exact awaits.after
    answered := by rw [answerAt, same]; exact awaits.answered
    inTime := by rw [same]; exact awaits.inTime }

/-- The time for the editor is over before the document is shown. -/
theorem AwaitsFocus.expired {index look : Nat} {found : Path}
    (awaits : AwaitsFocus creator schedule artifact began past index found (look + 1) timeline)
    (over' : foundAt creator schedule began index + creator.timings.focusTime
      ≤ timeline.now)
    (late : creator.timings.focusTime < (look + 1) * waited creator.timings.interval)
    {log : Log}
    (reacts : Reacts world creator job timeline timeline
      ⟨.settled (.error (.tooLate .focus artifact.fileName (.ofMillis creator.timings.focusTime))),
        [], log⟩ next)
    : Stands creator schedule artifact began ready past
        (.settled (.error (.tooLate .focus artifact.fileName
          (.ofMillis creator.timings.focusTime)))) next := by
  obtain ⟨heeds, finishes⟩ := reacts
  have finished := finishes rfl
  rw [Nat.le_antisymm awaits.inTime over'] at finished
  refine .settles finished (.inr ⟨(heeds.times_eq rfl).trans awaits.started, ?_⟩)
  rw [heeds.times_eq rfl, awaits.looked]
  refine .of_first awaits.first awaits.within (.of_inVain (awaits.vain.inVain ?_))
  rw [Schedule.answerOf_looks]
  exact late

-----------------------------------------------------------------------------------------
-- Steps
-----------------------------------------------------------------------------------------

section

variable {dialect : Dialect} {name : String}

/-- A request that is in its turn stands where the schedule puts it after every reply. -/
theorem Stands.replied (positive : 0 < creator.timings.interval)
    (follows : Follows world schedule (waited creator.timings.interval) began
      (.of creator.root dialect name) ready past) {phase : Phase}
    (stands : Stands creator schedule (.of creator.root dialect name) began ready past
      (.active phase) timeline) {reply : Reply}
    (replies : Replies world timeline 0 dialect phase middle reply) {tree : FileTree}
    (reacts : Reacts world creator (.named dialect name) timeline middle
      (creator.react tree middle.now (.named dialect name) phase reply) next)
    : Stands creator schedule (.of creator.root dialect name) began ready past
        (creator.react tree middle.now (.named dialect name) phase reply).phase.state next := by
  have replied := replies
  cases stands with
  | starts unstarted =>
      cases replies with
      | dispatches dispatched => exact unstarted.dispatched follows dispatched reacts
      | expires waits => rcases waits with same | ⟨wake, same⟩ <;> cases same
  | searches awaits searchedAt answerAt early spared =>
      cases replies with
      | searches spare searched due within =>
          have now := (Nat.le_antisymm early due).trans answerAt
          exact awaits.searched positive follows now due searched reacts
      | expires =>
          obtain ⟨over', late⟩ := replied.late_of_searching spared
          rw [answerAt, foundAt] at late
          exact awaits.expired over' (Nat.lt_of_add_lt_add_left late) reacts
  | restsForFile awaits wakes early spared =>
      cases replies with
      | rests spare due within =>
          exact awaits.rested follows ((Nat.le_antisymm early due).trans wakes) reacts
      | expires =>
          obtain ⟨over', late⟩ := replied.late_of_resting spared
          rw [wakes] at late
          have late := Nat.lt_of_add_lt_add_left late
          exact awaits.expired over' (late.trans_le startOf_le_answerOf) reacts
  | looks awaits now =>
      cases replies with
      | looks => exact awaits.looks positive follows now reacts
      | expires waits late resumes =>
          rcases waits with same | ⟨wake, same⟩ <;> cases same
          cases resumes
  | restsForFocus awaits wakes early spared =>
      cases replies with
      | rests spare due within =>
          exact awaits.rested ((Nat.le_antisymm early due).trans wakes) reacts
      | expires =>
          obtain ⟨over', late⟩ := replied.late_of_resting spared
          rw [wakes] at late
          exact awaits.expired over' (Nat.lt_of_add_lt_add_left late) reacts

/-- A request stands where the schedule puts it after every step. -/
theorem Stands.step (positive : 0 < creator.timings.interval)
    (follows : Follows world schedule (waited creator.timings.interval) began
      (.of creator.root dialect name) ready past) {reached : CallState}
    (single : Single creator (.named dialect name) state timeline)
    (goes : Goes world creator (.named dialect name) timeline state next reached)
    (stands : Stands creator schedule (.of creator.root dialect name) began ready past state
      timeline)
    : Stands creator schedule (.of creator.root dialect name) began ready past reached next := by
  cases goes with
  | comes => cases stands
  | passes => exact stands.again id
  | returns => exact stands.again fun _ => Nat.zero_lt_succ _
  | waits last unmoved turn passes early advances =>
      exact stands.later follows single turn passes early advances
  | replies first begun replies reacts heeds finishes =>
      subst reacts
      rcases begun with ⟨rfl, rfl⟩ | rfl
      · cases stands with
        | comes unstarted =>
            cases replies with
            | goes left =>
                have unstarted : Unstarted began ready { timeline with spare := left } :=
                  { unstarted with }
                exact unstarted.offer ⟨heeds, finishes⟩
            | expires waits => rcases waits with same | ⟨wake, same⟩ <;> cases same
      · exact stands.replied positive follows replies ⟨heeds, finishes⟩

end

end

-----------------------------------------------------------------------------------------
-- Punctual requests
-----------------------------------------------------------------------------------------

end Timeline

end RouteDesk
