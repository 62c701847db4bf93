import RouteDesk.Duration
import RouteDesk.Waiting

/-! Checking a condition again and again until it yields a value or the time is over. One
evaluation at a time is under way; the next one starts an interval after the one before has
answered, and what happens at the last moment still counts. A pause is cut short if it is longer
than one wait can last, but the time of the poll is not.
-/

namespace RouteDesk

/-- How often and how long a condition is checked, in milliseconds. -/
structure Polling where
  interval : Nat := 100
  timeout : Nat := 5000
deriving DecidableEq

/-- What is said of a condition that was not met in time. -/
def Polling.timeoutMessage (after : Duration) : String :=
  s!"condition not met within {after.text}"

/-- An evaluation of a condition: how long it takes, and what it yields. -/
structure Evaluation (α : Type) where
  delay : Nat := 0
  outcome : Option α

/-- A check whether something is so: how long it takes, and what comes of it. -/
structure Check where
  delay : Nat := 0
  met : Bool

/-- The evaluation that a check is: it yields nothing but that something is so. -/
def Check.evaluation (check : Check) : Evaluation Unit :=
  { delay := check.delay, outcome := if check.met then some () else none }

/-- How a poll ends. -/
inductive PollingEnd (α : Type) where
  | found (value : α)
  | timedOut
  | dropped
  /-- The clock cannot show when the time of the poll is over. -/
  | crashed
deriving DecidableEq

/-- A poll from its beginning at moment zero to its end. -/
structure PollingRun (α : Type) where
  ending : PollingEnd α
  finish : Nat
  starts : List Nat
deriving DecidableEq

namespace Polling

/-- How a poll ends if no evaluation yields a value, and when: a poll that is dropped at the
moment its time is over has timed out.
-/
def limit {α : Type} (polling : Polling) (drop : Option Nat) : PollingEnd α × Nat :=
  match drop with
  | some moment =>
    if moment < polling.timeout then (.dropped, moment) else (.timedOut, polling.timeout)
  | none => (.timedOut, polling.timeout)

/-- When the next evaluation starts after an unsuccessful one, if it starts in time. `spare` is
how many more waits can end at this moment before the clock is looked at; it comes back as it
is when the next evaluation starts.
-/
def nextStart? (polling : Polling) (lastMoment answered spare : Nat) : Option (Nat × Nat) :=
  let pause := waited polling.interval
  if lastMoment < answered + pause then none
  else if 0 < pause then some (answered + pause, waitsInARow - 1)
  else
    match spare with
    | left + 1 => some (answered, left)
    | 0 => if lastMoment ≤ answered then none else some (answered, waitsInARow - 1)

/-- The poll from the start of evaluation `index` on, in no more than the given number of
evaluations.
-/
def runFrom {α : Type} (polling : Polling) (schedule : Nat → Evaluation α)
    (last : PollingEnd α × Nat)
    : (evaluations index start spare : Nat) → PollingRun α
  | 0, _, _, _ => ⟨last.1, last.2, []⟩
  | evaluations + 1, index, start, spare =>
    let evaluation := schedule index
    let answered := start + evaluation.delay
    if last.2 < answered then ⟨last.1, last.2, [start]⟩
    else
      match evaluation.outcome with
      | some value => ⟨.found value, answered, [start]⟩
      | none =>
        let left := if evaluation.delay = 0 then spare else waitsInARow - 1
        match polling.nextStart? last.2 answered left with
        | none => ⟨last.1, last.2, [start]⟩
        | some (next, left) =>
          let run := runFrom polling schedule last evaluations (index + 1) next left
          { run with starts := start :: run.starts }

/-- The poll of a schedule of evaluations, in no more than the given number of them. `begun` is the
moment that the clock shows when the poll begins: the end of its time is found before anything is
evaluated, and if the clock cannot show it, nothing is.
-/
def runWithin {α : Type} (polling : Polling) (begun evaluations : Nat)
    (schedule : Nat → Evaluation α) (drop : Option Nat)
    : PollingRun α :=
  if begun + polling.timeout < clockEnd then
    polling.runFrom schedule (polling.limit drop) evaluations 0 0 waitsInARow
  else
    ⟨.crashed, 0, []⟩

/-- More evaluations than can start when the schedule repeats one evaluation from some index
on. Those that take no time come before that index or in a row at the last moment, since a
poll with time left would go on with them for ever.
-/
def evaluationLimit (polling : Polling) (repeated : Nat) : Nat :=
  polling.timeout + repeated + waitsInARow + 2

/-- The poll of a schedule of evaluations, dropped at some moment or not. At an interval of
a millisecond or more, no further evaluation could start in time.
-/
def run {α : Type} (polling : Polling) (begun : Nat) (schedule : Nat → Evaluation α)
    (drop : Option Nat)
    : PollingRun α :=
  polling.runWithin begun (polling.timeout + 1) schedule drop

/-- The poll of some checks until one is met, in no more than the given number of them. -/
def untilMetWithin (polling : Polling) (begun evaluations : Nat) (checks : Nat → Check)
    (drop : Option Nat)
    : PollingRun Unit :=
  polling.runWithin begun evaluations (fun index => (checks index).evaluation) drop

/-- The poll of a condition that is told at once, in no more than the given number of checks. -/
def untilTrueWithin (polling : Polling) (begun evaluations : Nat) (conditions : Nat → Bool)
    (drop : Option Nat)
    : PollingRun Unit :=
  polling.untilMetWithin begun evaluations (fun index => { met := conditions index }) drop

/-- What a poll that comes to its end tells: the value, or how long it has waited in vain. -/
def answer? {α : Type} (polling : Polling) (run : PollingRun α) : Option (Except Duration α) :=
  match run.ending with
  | .found value => some (.ok value)
  | .timedOut => some (.error (.ofMillis polling.timeout))
  | .dropped => none
  | .crashed => none

end Polling

end RouteDesk
