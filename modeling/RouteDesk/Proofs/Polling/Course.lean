import RouteDesk.Polling
import Mathlib.Tactic

/-! When the evaluations of a poll start and answer, and which of them are started. If pauses take
time, and the clock can show the end of the poll, it starts one evaluation after the other until one
yields a value or the time is over, and no number of evaluations that is large enough makes a
difference.
-/

namespace RouteDesk.Polling

variable {α : Type}

section

variable (pause : Nat) (schedule : Nat → Evaluation α)

/-- When an evaluation starts if the poll comes to it. -/
def startOf : Nat → Nat
  | 0 => 0
  | index + 1 => startOf index + (schedule index).delay + pause

/-- When an evaluation answers if the poll comes to it. -/
def answerOf (index : Nat) : Nat :=
  startOf pause schedule index + (schedule index).delay

/-- No evaluation before this one yields anything. -/
def AllVain (index : Nat) : Prop :=
  ∀ earlier < index, (schedule earlier).outcome = none

/-- The evaluation yields a value, and no one before it yields any. -/
structure IsFirst (index : Nat) (value : α) : Prop where
  yields : (schedule index).outcome = some value
  vain : AllVain schedule index

/-- No evaluation yields a value first and within the time. -/
def InVain (time : Nat) : Prop :=
  ∀ index value, IsFirst schedule index value → time < answerOf pause schedule index

end

variable {polling : Polling} {pause : Nat} {schedule : Nat → Evaluation α} {index : Nat}

theorem answerOf_add_pause (pause : Nat) (schedule : Nat → Evaluation α) (index : Nat)
    : answerOf pause schedule index + pause = startOf pause schedule (index + 1) :=
  rfl

theorem startOf_le_answerOf : startOf pause schedule index ≤ answerOf pause schedule index :=
  Nat.le_add_right _ _

/-- Evaluations start later and later, by induction on their distance. -/
theorem startOf_mono : Monotone (startOf pause schedule) := by
  refine monotone_nat_of_le_succ fun index => ?_
  rw [startOf]
  omega

/-- An evaluation has answered before any later one starts. -/
theorem answerOf_le_startOf {later : Nat} (before : index < later)
    : answerOf pause schedule index ≤ startOf pause schedule later := by
  have next := @startOf_mono _ pause schedule _ _ (Nat.succ_le_of_lt before)
  rw [Nat.succ_eq_add_one, ← answerOf_add_pause] at next
  omega

theorem AllVain.zero (schedule : Nat → Evaluation α) : AllVain schedule 0 :=
  fun earlier before => absurd before (Nat.not_lt_zero earlier)

theorem AllVain.succ (vain : AllVain schedule index) (yields : (schedule index).outcome = none)
    : AllVain schedule (index + 1) := by
  intro earlier before
  rcases Nat.lt_succ_iff_lt_or_eq.mp before with less | rfl
  · exact vain earlier less
  · exact yields

/-- Only one evaluation is the first one to yield a value. -/
theorem IsFirst.unique {other : Nat} {value again : α} (first : IsFirst schedule index value)
    (second : IsFirst schedule other again)
    : index = other ∧ value = again := by
  have yields := first.yields
  have same : index = other := by
    rcases Nat.lt_trichotomy index other with before | same | after
    · rw [second.vain index before] at yields
      cases yields
    · exact same
    · have yields := second.yields
      rw [first.vain other after] at yields
      cases yields
  subst same
  rw [second.yields] at yields
  exact ⟨rfl, (Option.some.inj yields).symm⟩

/-- Either some evaluation is the first to yield a value, and in time, or all are in vain. -/
theorem exists_inTime_or_inVain (pause : Nat) (schedule : Nat → Evaluation α) (time : Nat)
    : (∃ index value, IsFirst schedule index value ∧ answerOf pause schedule index ≤ time)
      ∨ InVain pause schedule time := by
  refine Classical.or_iff_not_imp_left.mpr fun missed index value first => ?_
  by_contra early
  exact missed ⟨index, value, first, Nat.le_of_not_lt early⟩

/-- If evaluations have yielded nothing until the time is over, all of them are in vain. -/
theorem AllVain.inVain {time : Nat} (vain : AllVain schedule index)
    (late : time < answerOf pause schedule index)
    : InVain pause schedule time := by
  intro other value first
  rcases Nat.lt_trichotomy other index with before | rfl | after
  · have yields := first.yields
    rw [vain other before] at yields
    cases yields
  · exact late
  · exact late.trans_le ((answerOf_le_startOf after).trans startOf_le_answerOf)

-----------------------------------------------------------------------------------------
-- Polls
-----------------------------------------------------------------------------------------

/-- How a poll goes that is over at some moment in some way unless an evaluation yields a value. -/
inductive Concludes (pause : Nat) (schedule : Nat → Evaluation α) (last : PollingEnd α × Nat)
    (latest : Nat)
    : PollingEnd α × Nat → Prop
  /-- The latest evaluation yields a value in time. -/
  | finds {value : α} (yields : (schedule latest).outcome = some value)
    (inTime : answerOf pause schedule latest ≤ last.2)
    : Concludes pause schedule last latest (.found value, answerOf pause schedule latest)
  /-- The time is over while the latest evaluation is under way. -/
  | interrupts (late : last.2 < answerOf pause schedule latest)
    : Concludes pause schedule last latest last
  /-- The time is over before another evaluation starts. -/
  | expires (yields : (schedule latest).outcome = none)
    (late : last.2 < startOf pause schedule (latest + 1))
    : Concludes pause schedule last latest last

/-- The evaluations that a poll has started, and how it has ended. -/
structure Course (pause : Nat) (schedule : Nat → Evaluation α) (last : PollingEnd α × Nat)
    (latest : Nat) (run : PollingRun α)
    : Prop where
  starts : run.starts = (List.range (latest + 1)).map (startOf pause schedule)
  vain : AllVain schedule latest
  inTime : startOf pause schedule latest ≤ last.2
  concludes : Concludes pause schedule last latest (run.ending, run.finish)

/-- If pauses take time, the next evaluation starts after one, unless the time is over by then. -/
theorem nextStart?_of_pos (positive : 0 < polling.interval) (lastMoment answered spare : Nat)
    : polling.nextStart? lastMoment answered spare
      = if lastMoment < answered + waited polling.interval then none
        else some (answered + waited polling.interval, waitsInARow - 1) := by
  have pause := waited_pos positive
  unfold nextStart?
  dsimp only
  rw [if_pos pause]

/-- A poll goes on from any evaluation as it should, by induction on those that it may still start.
Every pause takes a millisecond at least, so there are enough of them.
-/
theorem exists_course_from (positive : 0 < polling.interval) {last : PollingEnd α × Nat}
    (evaluations spare : Nat) (vain : AllVain schedule index)
    (inTime : startOf (waited polling.interval) schedule index ≤ last.2)
    (enough : last.2 < startOf (waited polling.interval) schedule index + evaluations)
    {run : PollingRun α}
    (runs : polling.runFrom schedule last evaluations index
      (startOf (waited polling.interval) schedule index) spare = run)
    : ∃ more,
        run.starts = (List.range' index (more + 1)).map (startOf (waited polling.interval) schedule)
          ∧ AllVain schedule (index + more)
          ∧ startOf (waited polling.interval) schedule (index + more) ≤ last.2
          ∧ Concludes (waited polling.interval) schedule last (index + more)
            (run.ending, run.finish) := by
  have pause := waited_pos positive
  subst runs
  induction evaluations generalizing index spare with
  | zero => omega
  | succ evaluations ih =>
      rw [runFrom]
      dsimp only
      split
      case isTrue late => exact ⟨0, rfl, vain, inTime, .interrupts late⟩
      case isFalse heard =>
        have heard : answerOf (waited polling.interval) schedule index ≤ last.2 := by
          rw [answerOf]
          omega
        split
        case h_1 value yields => exact ⟨0, rfl, vain, inTime, .finds yields heard⟩
        case h_2 yields =>
          rw [nextStart?_of_pos positive]
          split
          case h_1 none' =>
            split at none'
            case isTrue late => exact ⟨0, rfl, vain, inTime, .expires yields late⟩
            case isFalse => cases none'
          case h_2 next left some' =>
            split at some'
            case isTrue => cases some'
            case isFalse further =>
              obtain ⟨rfl, rfl⟩ := Prod.mk.inj (Option.some.inj some')
              have within : startOf (waited polling.interval) schedule (index + 1) ≤ last.2 :=
                Nat.le_of_not_lt further
              obtain ⟨more, starts, vain, inTime, concludes⟩ :=
                ih (waitsInARow - 1) (vain.succ yields) within (by rw [startOf]; omega)
              rw [Nat.succ_add_eq_add_succ] at vain inTime concludes
              exact ⟨more + 1, congrArg (startOf _ schedule index :: ·) starts, vain, inTime,
                concludes⟩

/-- A poll whose end the clock cannot show evaluates nothing. -/
theorem runWithin_of_clockEnd_le {begun : Nat} (unshown : clockEnd ≤ begun + polling.timeout)
    (evaluations : Nat) (schedule : Nat → Evaluation α) (drop : Option Nat)
    : polling.runWithin begun evaluations schedule drop = ⟨.crashed, 0, []⟩ :=
  if_neg (Nat.not_lt_of_le unshown)

/-- Every poll whose pauses take time and whose end the clock can show has a course if it may start
enough evaluations.
-/
theorem exists_course (positive : 0 < polling.interval) {begun : Nat}
    (shown : begun + polling.timeout < clockEnd) (schedule : Nat → Evaluation α)
    (drop : Option Nat) {evaluations : Nat} (enough : polling.timeout < evaluations)
    : ∃ latest, Course (waited polling.interval) schedule (polling.limit drop) latest
        (polling.runWithin begun evaluations schedule drop) := by
  have inTime : (@limit α polling drop).2 ≤ polling.timeout := by
    unfold limit
    grind
  obtain ⟨latest, starts, vain, within, concludes⟩ :=
    @exists_course_from _ polling schedule 0 positive (polling.limit drop) evaluations waitsInARow
      (.zero schedule) (Nat.zero_le _) (by rw [startOf]; omega) _ rfl
  rw [Nat.zero_add] at vain within concludes
  rw [runWithin, if_pos shown]
  refine ⟨latest, ?_, vain, within, concludes⟩
  rw [List.range_eq_range']
  exact starts

theorem exists_course_run (positive : 0 < polling.interval) {begun : Nat}
    (shown : begun + polling.timeout < clockEnd) (schedule : Nat → Evaluation α)
    (drop : Option Nat)
    : ∃ latest, Course (waited polling.interval) schedule (polling.limit drop) latest
        (polling.run begun schedule drop) :=
  exists_course positive shown schedule drop (Nat.lt_succ_self polling.timeout)

-----------------------------------------------------------------------------------------
-- The latest evaluation
-----------------------------------------------------------------------------------------

section

variable {last : PollingEnd α × Nat} {latest : Nat} {run : PollingRun α}

/-- An evaluation is started if it comes in time and none before it yields anything. -/
theorem Course.le_latest_iff (course : Course pause schedule last latest run)
    : index ≤ latest ↔ AllVain schedule index ∧ startOf pause schedule index ≤ last.2 := by
  constructor
  · intro started
    exact ⟨fun earlier before => course.vain earlier (by omega),
      (startOf_mono started).trans course.inTime⟩
  · rintro ⟨vain, inTime⟩
    by_contra beyond
    have before : latest < index := by omega
    have answered := @answerOf_le_startOf _ pause schedule _ _ before
    have next := @startOf_mono _ pause schedule _ _ (Nat.succ_le_of_lt before)
    obtain ⟨-, -, -, concludes⟩ := course
    generalize (run.ending, run.finish) = final at concludes
    cases concludes with
    | finds yields =>
        rw [vain latest before] at yields
        cases yields
    | interrupts late => omega
    | expires _ late =>
        rw [Nat.succ_eq_add_one] at next
        omega

/-- The first evaluation that yields a value in time is the latest one, and ends the poll. -/
theorem Course.finds (course : Course pause schedule last latest run) {value : α}
    (first : IsFirst schedule index value) (inTime : answerOf pause schedule index ≤ last.2)
    : run.ending = .found value ∧ run.finish = answerOf pause schedule index := by
  have started : index ≤ latest :=
    course.le_latest_iff.mpr ⟨first.vain, startOf_le_answerOf.trans inTime⟩
  have same : index = latest := by
    by_contra different
    have yields := first.yields
    rw [course.vain index (by omega)] at yields
    cases yields
  subst same
  obtain ⟨-, -, -, concludes⟩ := course
  generalize final : (run.ending, run.finish) = result at concludes
  cases concludes with
  | finds yields =>
      rw [first.yields] at yields
      obtain rfl := Option.some.inj yields
      exact Prod.mk.inj final
  | interrupts late => omega
  | expires yields =>
      rw [first.yields] at yields
      cases yields

/-- Unless an evaluation yields a value in time, the poll ends as it is to end then. -/
theorem Course.misses (course : Course pause schedule last latest run)
    (late : InVain pause schedule last.2)
    : run.ending = last.1 ∧ run.finish = last.2 := by
  obtain ⟨-, vain, -, concludes⟩ := course
  generalize final : (run.ending, run.finish) = result at concludes
  cases concludes with
  | finds yields inTime => exact absurd (late latest _ ⟨yields, vain⟩) (by omega)
  | interrupts => exact Prod.mk.inj final
  | expires => exact Prod.mk.inj final

/-- There is only one way that a poll can go. -/
theorem Course.unique (course : Course pause schedule last latest run) {final : Nat}
    {again : PollingRun α} (other : Course pause schedule last final again)
    : run = again := by
  have same : latest = final :=
    Nat.le_antisymm (other.le_latest_iff.mpr (course.le_latest_iff.mp le_rfl))
      (course.le_latest_iff.mpr (other.le_latest_iff.mp le_rfl))
  subst same
  have starts := course.starts.trans other.starts.symm
  have ends : run.ending = again.ending ∧ run.finish = again.finish := by
    rcases exists_inTime_or_inVain pause schedule last.2 with ⟨index, value, first, inTime⟩ | late
    · obtain ⟨ending, finish⟩ := course.finds first inTime
      obtain ⟨ending', finish'⟩ := other.finds first inTime
      exact ⟨ending.trans ending'.symm, finish.trans finish'.symm⟩
    · obtain ⟨ending, finish⟩ := course.misses late
      obtain ⟨ending', finish'⟩ := other.misses late
      exact ⟨ending.trans ending'.symm, finish.trans finish'.symm⟩
  cases run
  cases again
  obtain ⟨rfl, rfl⟩ := ends
  cases starts
  rfl

end

/-- More evaluations than a poll may start anyway change nothing. -/
theorem runWithin_eq_run (positive : 0 < polling.interval) (begun : Nat)
    (schedule : Nat → Evaluation α) (drop : Option Nat) {evaluations : Nat}
    (enough : polling.timeout < evaluations)
    : polling.runWithin begun evaluations schedule drop = polling.run begun schedule drop := by
  by_cases shown : begun + polling.timeout < clockEnd
  · obtain ⟨latest, course⟩ := exists_course positive shown schedule drop enough
    obtain ⟨final, other⟩ := exists_course_run positive shown schedule drop
    exact course.unique other
  · have unshown := Nat.le_of_not_lt shown
    exact (runWithin_of_clockEnd_le unshown _ _ _).trans
      (runWithin_of_clockEnd_le unshown _ _ _).symm

/-- Evaluations of which the second one yields something first. -/
def second (index : Nat) : Evaluation Unit :=
  Check.evaluation { met := decide (1 ≤ index) }

end RouteDesk.Polling
