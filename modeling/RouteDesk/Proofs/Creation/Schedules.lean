import RouteDesk.Creation.Timeline
import RouteDesk.Proofs.Polling.Exact

/-! Schedules of what a workspace and an editor answer to a request, the worlds that follow them,
and how a request is to fare. It waits for two things one after the other, each one with a time of
its own: first for a search that finds its file and no other one, and then for a document of that
name. So it fares as two polls do, one after the other.
-/

namespace RouteDesk

open Polling

-----------------------------------------------------------------------------------------
-- Schedules
-----------------------------------------------------------------------------------------

/-- How long searches take and what they are answered, one after the other, and which document has
the focus at what moment.
-/
structure Schedule where
  searchTime : Nat → Nat
  found : Nat → Except String (List Path)
  focus : Nat → Option Path

namespace Schedule

/-- The file that a search has found, if there is just one. -/
def single? : Except String (List Path) → Option Path
  | .ok [found] => some found
  | _ => none

/-- The searches as evaluations, which yield a single file. -/
def searches (schedule : Schedule) (index : Nat) : Evaluation Path :=
  { delay := schedule.searchTime index, outcome := single? (schedule.found index) }

/-- Whether the path of the document with the focus ends in a file name. -/
def shows (schedule : Schedule) (fileName : String) (moment : Nat) : Bool :=
  (schedule.focus moment).any fun path => path.endsWith (Path.ofText fileName)

/-- The looks at the editor from some moment on as evaluations, a pause after one another. -/
def looks (schedule : Schedule) (fileName : String) (pause since index : Nat) : Evaluation Unit :=
  Check.evaluation { met := schedule.shows fileName (since + index * pause) }

variable {schedule : Schedule} {fileName : String} {pause since : Nat}

/-- Looks take no time, so that only the pauses count; by induction on the looks. -/
theorem startOf_looks (index : Nat)
    : startOf pause (schedule.looks fileName pause since) index = index * pause := by
  induction index with
  | zero => exact (Nat.zero_mul pause).symm
  | succ index ih => rw [startOf, ih, Nat.succ_mul, looks, Check.evaluation, Nat.add_zero]

theorem answerOf_looks (index : Nat)
    : answerOf pause (schedule.looks fileName pause since) index = index * pause :=
  startOf_looks index

/-- A world in which the schedule comes true, whatever is asked for. -/
def world (schedule : Schedule) (tree : FileTree) : World Nat where
  tree _ := tree
  dispatch _ _ _ := (0, .ok (), [])
  searchTime := schedule.searchTime
  search _ _ count := (count + 1, schedule.found count)
  focused moment _ := schedule.focus moment

end Schedule

/-- A world does what a schedule says once the generator has been started for an artifact at some
moment: it is `ready` until then, and `past` so many searches from then on.
-/
structure Follows {σ : Type} (world : World σ) (schedule : Schedule) (pause began : Nat)
    (artifact : Artifact) (ready : σ → Prop) (past : Nat → σ → Prop)
    : Prop where
  waits {moment : Nat} {state later : σ} {log : Log} (before : ready state)
    (advances : world.advance moment state = (later, log))
    : ready later
  starts {state next : σ} {log : Log} (before : ready state)
    (dispatches : world.dispatch began artifact state = (next, .ok (), log))
    : past 0 next
  takes {count : Nat} {state : σ} (after : past count state)
    : world.searchTime state = schedule.searchTime count
  answers {count : Nat} {state next : σ} {outcome : Except String (List Path)}
    (after : past count state)
    (searches : world.search artifact.fileName
      (began + answerOf pause schedule.searches count) state = (next, outcome))
    : outcome = schedule.found count ∧ past (count + 1) next
  shows {count : Nat} {state : σ} (after : past count state) (moment : Nat)
    : world.focused moment state = schedule.focus moment
  goesOn {count moment : Nat} {state later : σ} {log : Log} (after : past count state)
    (advances : world.advance moment state = (later, log))
    : past count later

/-- What is to come of a request whose file was found at some moment, when, and at what moments the
editor is looked at, if pauses last so long.
-/
structure Activates (timings : Timings) (pause : Nat) (schedule : Schedule) (artifact : Artifact)
    (found : Path) (since : Nat) (outcome : Except CreationError CreatedRoute) (finish : Nat)
    (looks : List Nat)
    : Prop where
  /-- The first look that shows the document in time completes the request. -/
  shown (index : Nat)
    (first : IsFirst (schedule.looks artifact.fileName pause since) index ())
    (inTime : index * pause ≤ timings.focusTime)
    : outcome = .ok ⟨artifact, found⟩ ∧ finish = since + index * pause
  /-- Otherwise the request is too late just when its time for the editor is over. -/
  tooLate
    (late : InVain pause (schedule.looks artifact.fileName pause since) timings.focusTime)
    : outcome = .error (.tooLate .focus artifact.fileName (.ofMillis timings.focusTime))
      ∧ finish = since + timings.focusTime
  /-- The editor is looked at as soon as the file is found, and after every pause. -/
  looked : ∃ count, looks = (List.range (count + 1)).map (since + · * pause)
  inTime : finish ≤ since + timings.focusTime

/-- What is to come of a request whose generator was started at some moment, when, and at what
moments the editor is looked at, if pauses last so long.
-/
structure Punctual (timings : Timings) (pause : Nat) (schedule : Schedule) (artifact : Artifact)
    (began : Nat) (outcome : Except CreationError CreatedRoute) (finish : Nat) (looks : List Nat)
    : Prop where
  /-- Once a search has found a single file in time, the editor gets all of its time. -/
  found (index : Nat) (path : Path) (first : IsFirst schedule.searches index path)
    (inTime : answerOf pause schedule.searches index ≤ timings.fileTime)
    : Activates timings pause schedule artifact path
        (began + answerOf pause schedule.searches index) outcome finish looks
  /-- Otherwise the request is too late just when its time for the file is over. -/
  tooLate (late : InVain pause schedule.searches timings.fileTime)
    : outcome = .error (.tooLate .file artifact.fileName (.ofMillis timings.fileTime))
      ∧ finish = began + timings.fileTime ∧ looks = []
  inTime : finish ≤ began + timings.fileTime + timings.focusTime

section

variable {timings : Timings} {pause : Nat} {schedule : Schedule} {artifact : Artifact}
  {outcome : Except CreationError CreatedRoute} {finish : Nat} {looks : List Nat}

/-- The document is shown at the latest look, and not before. -/
theorem Activates.of_first {path : Path} {since latest : Nat}
    (first : IsFirst (schedule.looks artifact.fileName pause since) latest ())
    (within : latest * pause ≤ timings.focusTime)
    : Activates timings pause schedule artifact path since (.ok ⟨artifact, path⟩)
        (since + latest * pause)
        ((List.range (latest + 1)).map (since + · * pause)) where
  shown index again _ := by
    obtain ⟨rfl, -⟩ := first.unique again
    exact ⟨rfl, rfl⟩
  tooLate late := by
    have later := late latest () first
    rw [Schedule.answerOf_looks] at later
    omega
  looked := ⟨latest, rfl⟩
  inTime := Nat.add_le_add_left within since

/-- The document is not shown in time. -/
theorem Activates.of_inVain {path : Path} {since count : Nat}
    (late : InVain pause (schedule.looks artifact.fileName pause since) timings.focusTime)
    : Activates timings pause schedule artifact path since
        (.error (.tooLate .focus artifact.fileName (.ofMillis timings.focusTime)))
        (since + timings.focusTime)
        ((List.range (count + 1)).map (since + · * pause)) where
  shown index first within := by
    have later := late index () first
    rw [Schedule.answerOf_looks] at later
    omega
  tooLate _ := ⟨rfl, rfl⟩
  looked := ⟨count, rfl⟩
  inTime := Nat.le_refl _

/-- The file is found in time. -/
theorem Punctual.of_first {path : Path} {began index : Nat}
    (first : IsFirst schedule.searches index path)
    (within : answerOf pause schedule.searches index ≤ timings.fileTime)
    (activates : Activates timings pause schedule artifact path
      (began + answerOf pause schedule.searches index) outcome finish looks)
    : Punctual timings pause schedule artifact began outcome finish looks where
  found other again same _ := by
    obtain ⟨rfl, rfl⟩ := first.unique same
    exact activates
  tooLate late := absurd (late index path first) (Nat.not_lt_of_le within)
  inTime := by
    have within' := activates.inTime
    omega

/-- The file is not found in time. -/
theorem Punctual.of_inVain (began : Nat)
    (late : InVain pause schedule.searches timings.fileTime)
    : Punctual timings pause schedule artifact began
        (.error (.tooLate .file artifact.fileName (.ofMillis timings.fileTime)))
        (began + timings.fileTime) [] where
  found index path first within := absurd (late index path first) (Nat.not_lt_of_le within)
  tooLate _ := ⟨rfl, rfl, rfl⟩
  inTime := Nat.le_add_right _ _

end

-----------------------------------------------------------------------------------------
-- The polls of a request
-----------------------------------------------------------------------------------------

namespace Timings

end Timings

section

variable (schedule : Schedule) (timings : Timings) (artifact : Artifact) (clock : Nat)

end

section

variable {timings : Timings} {schedule : Schedule} {artifact : Artifact} {clock began : Nat}
  {outcome : Except CreationError CreatedRoute} {finish : Nat} {looks : List Nat}

end

end RouteDesk
