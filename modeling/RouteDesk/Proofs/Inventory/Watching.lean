import RouteDesk.Proofs.Inventory.Effects
import RouteDesk.Proofs.Inventory.Observed

/-! A root that is watched while the tree changes. The events that report a change are queued, and
delivered in order but as late as may be, each to be held against the tree of that moment. Meanwhile
the root is scanned once, and what was found is added to the index later still.
-/

namespace RouteDesk

open FileTree (IsName pathLimit)

-----------------------------------------------------------------------------------------
-- Reports of changes
-----------------------------------------------------------------------------------------

namespace DiskEvent

/-- Whether an event can have paths taken up. -/
def announces : DiskEvent → Bool
  | .created _ => true
  | .removed _ => false
  | .renamed _ => true

/-- Whether an event can have paths dropped. -/
def retracts : DiskEvent → Bool
  | .created _ => false
  | .removed _ => true
  | .renamed _ => true

/-- Whether what an event tells of a place of the tree is so: something was brought there, it was
removed with an emptied place, or it is either end of a renaming.
-/
def IsTrueOf (before after : FileTree) (effect : Effect) (place : Place) : DiskEvent → Prop
  | .created _ => effect.Brings before after place
  | .removed _ =>
    before.entry? place ≠ none ∧ ∃ left, effect.leaves? = some left ∧ left <+: place
  | .renamed _ => effect.leaves? = some place ∨ effect.Brings before after place

end DiskEvent

/-- Whether events report what a change has done below a root that leads to a place, all of it and
nothing else. Neither the root nor anything above it is touched.
-/
structure Reports (root : Path) (top : Place) (before after : FileTree) (effect : Effect)
    (events : List DiskEvent)
    : Prop where
  /-- What is told is so. -/
  honest (event : DiskEvent) (told : event ∈ events) (path : Path) (about : path ∈ event.paths)
    : ∃ names, path = root.descend names ∧ event.IsTrueOf before after effect (top ++ names)
  /-- An emptied place is told by its own path. -/
  departures (names : List Bytes) (leaves : effect.leaves? = some (top ++ names))
    : ∃ event ∈ events, event.retracts = true ∧ root.descend names ∈ event.paths
  /-- What is brought is told by its path, or by one above it that was brought as well. -/
  arrivals (names : List Bytes) (brings : effect.Brings before after (top ++ names))
    : ∃ event ∈ events, event.announces = true ∧ event.Mentions root names
  stays (left : Place) (leaves : effect.leaves? = some left) : ¬ left <+: top
  kept (place : Place) (brings : effect.Brings before after place) : ¬ place <+: top

section Reports

variable {root : Path} {top : Place} {before after : FileTree} {effect : Effect}
  {events : List DiskEvent} {names : List Bytes}

/-- Events only report what is at names below the root. -/
theorem Reports.inside (reports : Reports root top before after effect events)
    (does : effect.Does before after) (rooted : before.Rooted root top)
    (rooted' : after.Rooted root top) {event : DiskEvent} (told : event ∈ events)
    : event.IsInside root := by
  intro path about
  obtain ⟨names, rfl, so⟩ := reports.honest event told path about
  refine ⟨names, ?_, ?_, rfl⟩
  · rintro rfl
    rw [List.append_nil] at so
    cases event with
    | created => exact reports.kept top so List.prefix_rfl
    | removed =>
        obtain ⟨-, left, leaves, above⟩ := so
        exact reports.stays left leaves above
    | renamed =>
        exact so.elim (fun leaves => reports.stays top leaves List.prefix_rfl)
          fun brings => reports.kept top brings List.prefix_rfl
  · cases event with
    | created => exact rooted'.isName (does.present_of_brings so)
    | removed => exact rooted.isName so.1
    | renamed =>
        exact so.elim (fun leaves => rooted.isName (does.present_of_leaves leaves))
          fun brings => rooted'.isName (does.present_of_brings brings)

/-- A place on the way to names below the root is that of the first of them. -/
theorem exists_front {place : Place} {names : List Bytes} (above : place <+: top ++ names)
    (inner : ¬ place <+: top)
    : ∃ front, place = top ++ front ∧ front <+: names := by
  rcases List.prefix_or_prefix_of_prefix above (List.prefix_append top names) with higher | under
  · exact absurd higher inner
  · obtain ⟨front, rfl⟩ := under
    exact ⟨front, rfl, (List.prefix_append_right_inj top).mp above⟩

/-- A file that is there afterwards is not among what is reported as removed. -/
theorem Reports.not_mentions (reports : Reports root top before after effect events)
    (does : effect.Does before after) (rooted : before.Rooted root top)
    (rooted' : after.Rooted root top) {names : List Bytes}
    (present : after.entry? (top ++ names) ≠ none) (given : names ≠ []) {paths : List Path}
    (told : .removed paths ∈ events)
    : ¬ (DiskEvent.removed paths).Mentions root names := by
  rintro ⟨front, above, about⟩
  obtain ⟨others, same, there, left, leaves, under⟩ := reports.honest _ told _ about
  have proper (name : Bytes) (member : name ∈ front) : IsName name :=
    rooted'.isName present name (above.subset member)
  have names_eq : front = others :=
    (Path.below_descend rooted.absolute proper).names_eq
      (Path.below_descend rooted.absolute (rooted.isName there)) (congrArg Path.components same)
  subst names_eq
  obtain ⟨tail, split⟩ := under.trans ((List.prefix_append_right_inj top).mpr above)
  refine present (split ▸ does.nothing_left leaves ?_)
  rw [split]
  simp [given]

/-- Something new by itself is reported by its path. -/
theorem reports_put (given : names ≠ []) (absent : before.entry? (top ++ names) = none)
    (entry : Entry)
    : Reports root top before (before.put (top ++ names) entry) .grows
        [.created [root.descend names]] := by
  have inner : top ++ names ≠ [] := by simp [given]
  have there : FileTree.entry? (before.put (top ++ names) entry) (top ++ names) ≠ none := by
    simp [FileTree.entry?_put_self inner]
  have only {place : Place}
      (brings : Effect.grows.Brings before (before.put (top ++ names) entry) place)
      : place = top ++ names := by
    by_contra different
    exact brings.2 ((FileTree.entry?_put_of_ne different before entry).trans brings.1)
  refine ⟨fun event told path about => ?_, nofun, fun others brings => ?_, nofun,
    fun place brings above => ?_⟩
  · obtain rfl := List.mem_singleton.mp told
    obtain rfl := List.mem_singleton.mp about
    exact ⟨names, rfl, absent, there⟩
  · obtain rfl := List.append_cancel_left (only brings)
    exact ⟨_, List.mem_singleton_self _, rfl, others, List.prefix_rfl, List.mem_singleton_self _⟩
  · obtain rfl := only brings
    exact given (by simpa using above.length_le)

/-- What is removed is reported by its path. -/
theorem reports_cut (given : names ≠ []) (present : before.entry? (top ++ names) ≠ none)
    : Reports root top before after (.empties (top ++ names)) [.removed [root.descend names]] := by
  refine ⟨fun event told path about => ?_, fun others leaves => ?_, fun others => False.elim,
    fun left leaves above => ?_, fun place => False.elim⟩
  · obtain rfl := List.mem_singleton.mp told
    obtain rfl := List.mem_singleton.mp about
    exact ⟨names, rfl, present, _, rfl, List.prefix_rfl⟩
  · obtain rfl := List.append_cancel_left (Option.some.inj leaves)
    exact ⟨_, List.mem_singleton_self _, rfl, List.mem_singleton_self _⟩
  · obtain rfl := Option.some.inj leaves
    exact given (by simpa using above.length_le)

/-- What is renamed is reported by its old path and its new one. -/
theorem reports_graft {old new : List Bytes} (given : old ≠ []) (given' : new ≠ [])
    : Reports root top before after (.moves (top ++ old) (top ++ new))
        [.renamed [root.descend old, root.descend new]] := by
  refine ⟨fun event told path about => ?_, fun others leaves => ?_, fun others brings => ?_,
    fun left leaves above => ?_, fun place brings above => ?_⟩
  · obtain rfl := List.mem_singleton.mp told
    rcases List.mem_pair.mp about with rfl | rfl
    · exact ⟨old, rfl, .inl rfl⟩
    · exact ⟨new, rfl, .inr rfl⟩
  · obtain rfl := List.append_cancel_left (Option.some.inj leaves)
    exact ⟨_, List.mem_singleton_self _, rfl, List.mem_cons_self⟩
  · obtain rfl := List.append_cancel_left brings
    exact ⟨_, List.mem_singleton_self _, rfl, others, List.prefix_rfl, by simp [DiskEvent.paths]⟩
  · obtain rfl := Option.some.inj leaves
    exact given (by simpa using above.length_le)
  · obtain rfl : place = _ := brings
    exact given' (by simpa using above.length_le)

end Reports

-----------------------------------------------------------------------------------------
-- Runs
-----------------------------------------------------------------------------------------

/-- How far the index has been filled by a scan. -/
inductive Seeding where
  | pending
  | scanned (found : List Path)
  | done

/-- A watched root: the tree, the events that were not delivered yet, and the index. -/
structure Watching where
  tree : FileTree
  queue : List DiskEvent := []
  index : Index := {}
  seeding : Seeding := .pending

namespace Watching

/-- What can happen next. -/
inductive Act where
  | change (change : FileChange) (events : List DiskEvent)
  | deliver
  | scan
  | seed

/-- The state after an act. What is out of turn does nothing. -/
def after (root : Path) (state : Watching) : Act → Watching
  | .change change events =>
    { state with tree := (change.apply state.tree).1, queue := state.queue ++ events }
  | .deliver =>
    match state.queue with
    | [] => state
    | event :: rest =>
      { state with queue := rest, index := (state.index.observe state.tree event).1 }
  | .scan =>
    match state.seeding, Inventory.all state.tree root with
    | .pending, .ok found => { state with seeding := .scanned found }
    | _, _ => state
  | .seed =>
    match state.seeding with
    | .scanned found => { state with index := state.index.extend found, seeding := .done }
    | _ => state

/-- What an act does, if anything. -/
inductive Step (root : Path) (state : Watching) : Act → Watching → Prop
  | idle {act : Act} : Step root state act state
  | changes (change : FileChange) (events : List DiskEvent)
    : Step root state (.change change events)
        { state with tree := (change.apply state.tree).1, queue := state.queue ++ events }
  | delivers {event : DiskEvent} {rest : List DiskEvent} (queue : state.queue = event :: rest)
    : Step root state .deliver
        { state with queue := rest, index := (state.index.observe state.tree event).1 }
  | scans {found : List Path} (pending : state.seeding = .pending)
    (finds : Inventory.all state.tree root = .ok found)
    : Step root state .scan { state with seeding := .scanned found }
  | seeds {found : List Path} (scanned : state.seeding = .scanned found)
    : Step root state .seed { state with index := state.index.extend found, seeding := .done }

theorem step_after (root : Path) (state : Watching) (act : Act)
    : Step root state act (state.after root act) := by
  cases act with
  | change change events => exact .changes change events
  | deliver =>
      cases queue : state.queue with
      | nil =>
          simp only [after, queue]
          exact .idle
      | cons event rest =>
          simp only [after, queue]
          exact .delivers queue
  | scan =>
      cases seeding : state.seeding with
      | pending =>
          cases finds : Inventory.all state.tree root with
          | ok found =>
              simp only [after, seeding, finds]
              exact .scans seeding finds
          | error reason =>
              simp only [after, seeding, finds]
              exact .idle
      | _ =>
          simp only [after, seeding]
          exact .idle
  | seed =>
      cases seeding : state.seeding with
      | scanned found =>
          simp only [after, seeding]
          exact .seeds seeding
      | _ =>
          simp only [after, seeding]
          exact .idle

/-- Whether an act is one of a run: changes leave the root in its place, and are reported. -/
def Admits (root : Path) (top : Place) (state : Watching) : Act → Prop
  | .change change events =>
    (change.apply state.tree).1.Rooted root top
    ∧ Reports root top state.tree (change.apply state.tree).1 (change.effect state.tree) events
  | _ => True

/-- The states of the runs from a state, with acts of some kind only. -/
inductive Reaches (root : Path) (allowed : Watching → Act → Prop) (start : Watching)
    : Watching → Prop
  | start : Reaches root allowed start start
  | next {state : Watching} (before : Reaches root allowed start state) (act : Act)
    (admitted : allowed state act)
    : Reaches root allowed start (state.after root act)

/-- Whether the index is filled and all events are delivered. -/
def Quiet (state : Watching) : Prop :=
  state.seeding = .done ∧ state.queue = []

variable {root : Path} {top : Place}

/-- What holds at the start and is kept by every act holds throughout. -/
theorem Reaches.invariant {allowed : Watching → Act → Prop} {holds : Watching → Prop}
    {start state : Watching} (reaches : Reaches root allowed start state) (first : holds start)
    (kept : ∀ state act, allowed state act → holds state → holds (state.after root act))
    : holds state := by
  induction reaches with
  | start => exact first
  | next before act admitted ih => exact kept _ _ admitted ih

/-- A root that is scanned at once is known by what was found. -/
theorem Reaches.seeded {allowed : Watching → Act → Prop} {tree : FileTree} {found : List Path}
    (finds : Inventory.all tree root = .ok found) (scans : allowed { tree } .scan)
    (seeds : allowed { tree, seeding := .scanned found } .seed)
    : Reaches root allowed { tree } ⟨tree, [], Index.extend {} found, .done⟩ := by
  have started : Reaches root allowed { tree } { tree } := .start
  have scanned := started.next .scan scans
  simp only [after, finds] at scanned
  exact scanned.next .seed seeds

/-- The root is in its place, and only what is below it is reported. -/
structure Regular (root : Path) (top : Place) (state : Watching) : Prop where
  rooted : state.tree.Rooted root top
  inside (event : DiskEvent) (queued : event ∈ state.queue) : event.IsInside root

theorem Regular.after {state : Watching} (regular : state.Regular root top) {act : Act}
    (admitted : state.Admits root top act)
    : (state.after root act).Regular root top := by
  have step := step_after root state act
  generalize state.after root act = next at step ⊢
  cases step with
  | idle => exact regular
  | changes change events =>
      obtain ⟨rooted, reports⟩ := admitted
      refine ⟨rooted, fun event queued => ?_⟩
      rcases List.mem_append.mp queued with former | new
      · exact regular.inside event former
      · exact reports.inside (change.effect_spec regular.rooted.sound) regular.rooted rooted new
  | delivers queue =>
      exact ⟨regular.rooted, fun other queued =>
        regular.inside other (queue ▸ List.mem_cons_of_mem _ queued)⟩
  | scans => exact ⟨regular.rooted, regular.inside⟩
  | seeds => exact ⟨regular.rooted, regular.inside⟩

end Watching

end RouteDesk
