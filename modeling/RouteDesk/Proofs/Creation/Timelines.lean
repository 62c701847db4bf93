import RouteDesk.Creation.Timeline
import RouteDesk.Proofs.Creation.Record

/-! Timelines are records: whatever the world is like, the requests of a timeline have come as far,
and the same has happened to them, as in some record.
-/

namespace RouteDesk.Timeline

variable {σ : Type} {timeline next : Timeline σ}

/-- The requests have come as far, and the same has happened to them. -/
structure Alike (timeline next : Timeline σ) : Prop where
  session : next.session = timeline.session
  trace : next.trace = timeline.trace

namespace Alike

theorem refl (timeline : Timeline σ) : Alike timeline timeline :=
  ⟨rfl, rfl⟩

theorem trans {last : Timeline σ} (first : Alike timeline next) (second : Alike next last)
    : Alike timeline last :=
  ⟨second.session.trans first.session, second.trace.trans first.trace⟩

end Alike

theorem alike_waitOver (over' : timeline.waitOver? = some next) : Alike timeline next := by
  unfold waitOver? at over'
  split at over'
  · cases over'
  · obtain rfl := Option.some.inj over'
    exact ⟨rfl, rfl⟩

theorem alike_searchOver (over' : timeline.searchOver? = some next) : Alike timeline next := by
  unfold searchOver? at over'
  split at over'
  · exact alike_waitOver over'
  · obtain rfl := Option.some.inj over'
    exact .refl _

/-- A reply that is awaited until a deadline leaves the requests alone if the end of the wait
and the reply do.
-/
theorem alike_replyBy {due deadline : Nat} {reached : Option (Timeline σ)}
    {answer : Timeline σ → Timeline σ × Reply} {reply : Reply}
    (waits : ∀ middle, reached = some middle → Alike timeline middle)
    (answers : ∀ middle, Alike middle (answer middle).1)
    (replied : timeline.replyBy due deadline reached answer = some (next, reply))
    : Alike timeline next := by
  unfold replyBy at replied
  dsimp only at replied
  split at replied
  case h_1 middle ended =>
    have same : (answer middle).1 = next := congrArg Prod.fst (Option.some.inj replied)
    split at ended
    · exact same ▸ (waits middle ended).trans (answers middle)
    · cases ended
  case h_2 =>
    split at replied
    · cases replied
      exact .refl _
    · cases replied

theorem alike_replyIn {world : World σ} {caller : Nat} {dialect : Dialect} {phase : Phase}
    {reply : Reply} (replied : timeline.replyIn world caller dialect phase = some (next, reply))
    : Alike timeline next := by
  unfold replyIn at replied
  split at replied
  case h_1 =>
    obtain ⟨middle, waited, same⟩ := Option.map_eq_some_iff.mp replied
    cases same
    exact alike_waitOver waited
  case h_2 =>
    cases replied
    exact ⟨rfl, rfl⟩
  case h_3 =>
    cases replied
    exact ⟨rfl, rfl⟩
  case h_4 => exact alike_replyBy (fun _ => alike_searchOver) (fun _ => ⟨rfl, rfl⟩) replied
  case h_5 =>
    cases replied
    exact .refl _
  case h_6 => exact alike_replyBy (fun _ => alike_waitOver) (fun _ => .refl _) replied
  case h_7 => cases replied

/-- Finding out what can happen to a request leaves all of them alone. -/
theorem alike_action {world : World σ} {caller : Nat} {action : Action}
    (due : timeline.action? world caller = some (next, action))
    : Alike timeline next ∧ action.caller = caller := by
  unfold action? at due
  extract_lets visitor abandoned replied at due
  have dropped (gone : abandoned = some (next, action))
      : Alike timeline next ∧ action.caller = caller := by
    simp only [abandoned] at gone
    split at gone
    · split at gone
      · cases gone
        exact ⟨.refl _, rfl⟩
      · cases gone
    · cases gone
  have goesOn {phase : Phase} {job : Job} (going : replied phase job = some (next, action))
      : Alike timeline next ∧ action.caller = caller := by
    simp only [replied] at going
    split at going
    case isTrue =>
      split at going
      case h_1 middle reply answered =>
        cases going
        exact ⟨alike_replyIn answered, rfl⟩
      case h_2 => exact dropped going
    case isFalse => exact dropped going
  split at due
  case h_1 =>
    split at due
    · cases due
      exact ⟨.refl _, rfl⟩
    · split at due
      · obtain ⟨middle, waited, same⟩ := Option.map_eq_some_iff.mp due
        cases same
        exact ⟨alike_waitOver waited, rfl⟩
      · cases due
  case h_2 => exact goesOn due
  case h_3 => exact goesOn due
  case h_4 => cases due

theorem alike_heed (world : World σ) (caller : Nat) (timeline : Timeline σ) (event : Event)
    : Alike timeline (heed world caller timeline event) := by
  unfold heed
  split <;> exact ⟨rfl, rfl⟩

/-- Heeding events leaves all requests alone, by induction on the events. -/
theorem alike_heeds (world : World σ) (caller : Nat) (timeline : Timeline σ)
    (events : List Event)
    : Alike timeline (events.foldl (heed world caller) timeline) := by
  induction events generalizing timeline with
  | nil => exact .refl _
  | cons event rest ih => exact (alike_heed world caller timeline event).trans (ih _)

/-- What a timeline has of a happening. -/
def momentOf (happening : Happening) : Moment :=
  ⟨happening.now, happening.caller, happening.event⟩

/-- The requests of the timeline have come as far as those of the record, and the same has
happened to them.
-/
structure Retold (record : Record) (timeline : Timeline σ) : Prop where
  session : timeline.session = record.session
  trace : timeline.trace.reverse = record.trace.map momentOf

namespace Retold

variable {record : Record}

theorem alike (retold : Retold record timeline) (same : Alike timeline next)
    : Retold record next :=
  ⟨same.session.trans retold.session, same.trace ▸ retold.trace⟩

/-- Letting an action happen extends the record. -/
theorem perform (retold : Retold record timeline) (world : World σ) (action : Action)
    : Retold (record.extend ⟨world.tree timeline.world, timeline.now, action⟩)
        (timeline.perform world action.caller action) := by
  have session : (timeline.perform world action.caller action).session
      = (timeline.session.step (world.tree timeline.world) timeline.now action).1 := by
    unfold Timeline.perform
    dsimp only
    split <;> exact (alike_heeds world action.caller _ _).session
  have trace : (timeline.perform world action.caller action).trace
      = ((timeline.session.step (world.tree timeline.world) timeline.now action).2.1.map
          fun event => ⟨timeline.now, action.caller, event⟩).reverse ++ timeline.trace := by
    unfold Timeline.perform
    dsimp only
    split <;> exact (alike_heeds world action.caller _ _).trace
  refine ⟨by rw [session, retold.session]; rfl, ?_⟩
  rw [trace, List.reverse_append, List.reverse_reverse, retold.trace, retold.session]
  change _ = List.map momentOf (record.trace ++ List.map _ _)
  rw [List.map_append, List.map_map]
  rfl

/-- A step of the timeline leaves its requests alone or extends the record. -/
theorem step (retold : Retold record timeline) {world : World σ}
    (stepped : timeline.step? world = some next)
    : ∃ occasions : List Occasion, Retold (occasions.foldl Record.extend record) next := by
  unfold step? at stepped
  split at stepped
  · cases stepped
  split at stepped
  · split at stepped
    case h_1 middle action due =>
      obtain ⟨same, doer⟩ := alike_action due
      obtain rfl := Option.some.inj stepped
      rw [← doer]
      exact ⟨[_], (retold.alike same).perform world action⟩
    case h_2 =>
      obtain rfl := Option.some.inj stepped
      exact ⟨[], retold.alike ⟨rfl, rfl⟩⟩
  split at stepped
  · obtain rfl := Option.some.inj stepped
    exact ⟨[], retold.alike ⟨rfl, rfl⟩⟩
  split at stepped
  · cases stepped
  · obtain rfl := Option.some.inj stepped
    exact ⟨[], retold.alike ⟨rfl, rfl⟩⟩

/-- So do any number of steps, by induction on them. -/
theorem run (retold : Retold record timeline) (world : World σ) (steps : Nat)
    : ∃ occasions : List Occasion, Retold (occasions.foldl Record.extend record)
        (Timeline.run world steps timeline) := by
  induction steps generalizing record timeline with
  | zero => exact ⟨[], retold⟩
  | succ steps ih =>
      rw [Timeline.run]
      split
      case h_1 next stepped =>
        obtain ⟨first, retold⟩ := retold.step stepped
        obtain ⟨rest, retold⟩ := ih retold
        refine ⟨first ++ rest, ?_⟩
        rw [List.foldl_append]
        exact retold
      case h_2 => exact ⟨[], retold⟩

end Retold

/-- Whatever the world is like and whoever calls, what comes of the requests is on record. -/
theorem retold_run (creator : Creator) (world : World σ) (state : σ)
    (callers : List (Job × Visitor)) (steps : Nat)
    : ∃ occasions, Retold (.of creator (callers.map Prod.fst) occasions)
        (run world steps (start creator state callers)) := by
  refine Retold.run ⟨?_, rfl⟩ world steps
  rw [start, Session.opening, List.map_map]
  rfl

end RouteDesk.Timeline
