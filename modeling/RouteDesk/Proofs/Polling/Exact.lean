import RouteDesk.Proofs.Polling.Course

/-! What comes of a poll, and when. The first evaluation that yields a value decides, if it answers
before the time is over or just then; otherwise the poll is over at the end of its time. A condition
that is checked goes the same way, be it told at once or not.
-/

namespace RouteDesk.Polling

variable {α : Type} {polling : Polling} {schedule : Nat → Evaluation α}

/-- What comes of a poll of a schedule whose pauses last so long. -/
structure Exact (polling : Polling) (pause : Nat) (schedule : Nat → Evaluation α)
    (run : PollingRun α)
    : Prop where
  /-- A value is found if and only if the first evaluation that yields one yields it in time. -/
  found (value : α)
    : polling.answer? run = some (.ok value)
      ↔ ∃ index, IsFirst schedule index value ∧ answerOf pause schedule index ≤ polling.timeout
  /-- It is found just when that evaluation answers. -/
  foundAt (index : Nat) (value : α) (first : IsFirst schedule index value)
    (inTime : answerOf pause schedule index ≤ polling.timeout)
    : run.finish = answerOf pause schedule index
  /-- Otherwise the poll tells that it has waited in vain, just when its time is over. -/
  timedOut (late : InVain pause schedule polling.timeout)
    : polling.answer? run = some (.error (.ofMillis polling.timeout))
      ∧ run.finish = polling.timeout

/-- Where a poll is over at the end of its time, its course decides what comes of it. -/
theorem Course.exact {pause latest : Nat} {run : PollingRun α}
    (course : Course pause schedule (.timedOut, polling.timeout) latest run)
    : Exact polling pause schedule run where
  found value := by
    constructor
    · intro answer
      rcases exists_inTime_or_inVain pause schedule polling.timeout with
        ⟨index, other, first, inTime⟩ | late
      · rw [answer?, (course.finds first inTime).1] at answer
        obtain rfl := Except.ok.inj (Option.some.inj answer)
        exact ⟨index, first, inTime⟩
      · rw [answer?, (course.misses late).1] at answer
        cases answer
    · rintro ⟨index, first, inTime⟩
      rw [answer?, (course.finds first inTime).1]
  foundAt index value first inTime := (course.finds first inTime).2
  timedOut late := by
    obtain ⟨ending, finish⟩ := course.misses late
    rw [answer?, ending]
    exact ⟨rfl, finish⟩

end RouteDesk.Polling
