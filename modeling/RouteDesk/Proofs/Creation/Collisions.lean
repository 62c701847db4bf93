import RouteDesk.Proofs.Creation.Taken
import RouteDesk.Proofs.Inventory.Literal

/-! Requests for the same route. As long as the workspace is searched on the disk and the file of a
created route stays where it was found, whoever gets its turn after that is refused, so that at
most one request creates the route. Only the path of the file must not be longer than the system
takes, as a file is found along shorter paths than the one that is looked at when it is checked.
-/

namespace RouteDesk

namespace Record

variable {creator : Creator} {jobs : List Job} {dialect : Dialect} {name : String}
  {record : Record} {caller : Nat}

-----------------------------------------------------------------------------------------
-- Refusals
-----------------------------------------------------------------------------------------

/-- Nothing has been done for a request yet: it has not begun, or was dropped before that. -/
structure Untouched (record : Record) (caller : Nat) : Prop where
  own : record.own caller = []
  state : record.session.state caller = .absent ∨ record.session.state caller = .queued
    ∨ record.session.state caller = .active .ready ∨ record.session.state caller = .dropped

/-- A request was refused because its file exists, and its name was checked but nothing else was
done for it; above all, the generator was not started.
-/
structure Refused (dialect : Dialect) (name : String) (record : Record) (caller : Nat) : Prop where
  state : record.session.state caller
    = .settled (.error (.badName (.taken (dialect.fileName name))))
  own : seen (record.own caller) = [.checked name (.error (.taken (dialect.fileName name)))]

/-- Whoever has not had a turn is untouched. -/
theorem Orderly.untouched (orderly : Orderly record) (never : caller ∉ record.turns)
    : Untouched record caller := by
  refine ⟨orderly.own_eq_nil never, ?_⟩
  cases state : record.session.state caller with
  | absent => exact .inl rfl
  | queued => exact .inr (.inl rfl)
  | active phase => exact absurd (orderly.had caller (.inl ⟨phase, state⟩)) never
  | settled outcome => exact absurd (orderly.had caller (.inr ⟨outcome, state⟩)) never
  | dropped => exact .inr (.inr (.inr rfl))

/-- The reaction to a request for a taken name. -/
theorem react_of_taken {tree : FileTree}
    (taken : RouteName.check tree creator.root dialect name
      = .error (.taken (dialect.fileName name)))
    (now : Nat)
    : creator.react tree now (.named dialect name) .ready .go
      = ⟨.settled (.error (.badName (.taken (dialect.fileName name)))),
          [.checked name (.error (.taken (dialect.fileName name)))], []⟩ := by
  simp [Creator.react, Creator.offer, taken]

/-- A request that was not set going is not set going by anything else. -/
theorem react_ready (creator : Creator) (tree : FileTree) (now : Nat) (job : Job) {reply : Reply}
    (other : reply ≠ .go)
    : creator.react tree now job .ready reply = ⟨.ready, [], []⟩ := by
  cases reply <;> first | rfl | exact absurd rfl other

/-- As long as a name is taken, a request for it stays untouched or is refused. -/
theorem Untouched.extend (untouched : Untouched record caller) (told : Told creator jobs record)
    (asks : Asks jobs dialect name caller) (occasion : Occasion)
    (taken : RouteName.check occasion.tree creator.root dialect name
      = .error (.taken (dialect.fileName name)))
    : Untouched (record.extend occasion) caller
      ∨ Refused dialect name (record.extend occasion) caller := by
  obtain ⟨events, undergoes, own⟩ :=
    undergoes_extend record occasion ((told.job caller).trans asks)
  obtain ⟨nothing, state⟩ := untouched
  rw [nothing, List.nil_append] at own
  rw [told.made] at undergoes
  generalize record.session.state caller = former at state undergoes
  generalize after : (record.extend occasion).session.state caller = reached at undergoes
  cases undergoes with
  | stays => exact .inl ⟨own, after ▸ state⟩
  | joins => exact .inl ⟨own, .inr (.inl after)⟩
  | drops => exact .inl ⟨own, .inr (.inr (.inr after))⟩
  | @moves _ phase reply delivers begun =>
      obtain rfl : phase = .ready := by
        rcases begun with ⟨-, ready⟩ | active
        · exact ready
        · rw [active] at state
          rcases state with same | same | same | same <;> cases same
          rfl
      by_cases go : reply = .go
      · rw [go, react_of_taken taken] at own after
        exact .inr ⟨after, by rw [own]; rfl⟩
      · rw [react_ready creator occasion.tree occasion.now _ go] at own after
        exact .inl ⟨own, .inr (.inr (.inl after))⟩

/-- When a request for a taken name is set going in its turn, it is refused at once. -/
theorem Untouched.go (untouched : Untouched record caller) (told : Told creator jobs record)
    (orderly : Orderly record) (asks : Asks jobs dialect name caller)
    (holds : record.Holds caller) {occasion : Occasion}
    (delivers : occasion.action = .deliver caller .go)
    (taken : RouteName.check occasion.tree creator.root dialect name
      = .error (.taken (dialect.fileName name)))
    : Refused dialect name (record.extend occasion) caller := by
  have turn := (orderly.holds_iff caller).mp holds
  obtain ⟨⟨job, state⟩, present, rfl⟩ :
      ∃ call, record.session.calls[caller]? = some call ∧ call.job = .named dialect name :=
    Option.map_eq_some_iff.mp ((told.job caller).trans asks)
  have now := Session.state_of_getElem? present
  have begun : state = .queued ∧ Phase.ready = .ready ∨ state = .active .ready := by
    rcases untouched.state with same | same | same | same <;> rw [now] at same
    · exact absurd (orderly.order.subset (List.mem_append_left _ holds.1))
        (orderly.absent caller (now.trans same))
    · exact .inl ⟨same, rfl⟩
    · exact .inr same
    · have going := holds.2
      rw [now, same] at going
      cases going
  have reacts := react_of_taken taken occasion.now
  rw [← told.made] at reacts
  have steps := Session.step_settles present begun turn (congrArg Reaction.phase reacts)
  rw [reacts, ← delivers] at steps
  refine ⟨?_, ?_⟩
  · change (record.session.step _ _ _).1.state caller = _
    rw [steps]
    exact Session.state_withState_self present _
  · rw [own_extend, untouched.own, steps, delivers]
    simp [Action.caller, seen]

-----------------------------------------------------------------------------------------
-- One request only
-----------------------------------------------------------------------------------------

/-- A request is over and has not created anything. -/
def Barren (record : Record) (caller : Nat) : Prop :=
  (record.session.state caller).isOver = true ∧ ∀ route, ¬ Completed record caller route

theorem Refused.barren (refused : Refused dialect name record caller) : Barren record caller := by
  refine ⟨by rw [refused.state]; rfl, fun route completed => ?_⟩
  cases completed.symm.trans refused.state

theorem Completed.isOver {route : CreatedRoute} (completed : Completed record caller route)
    : (record.session.state caller).isOver = true := by
  rw [completed]
  rfl

theorem Continues.completed_iff {after : Record} (goes : Continues record after)
    (finished : (record.session.state caller).isOver = true) {route : CreatedRoute}
    : Completed after caller route ↔ Completed record caller route := by
  unfold Completed
  rw [goes.state caller finished]

theorem Continues.barren {after : Record} (goes : Continues record after)
    (barren : Barren record caller)
    : Barren after caller :=
  ⟨by rw [goes.state caller barren.1, barren.1],
    fun route completed => barren.2 route ((goes.completed_iff barren.1).mp completed)⟩

theorem Untouched.not_completed (untouched : Untouched record caller) {route : CreatedRoute}
    (completed : Completed record caller route)
    : False := by
  rcases untouched.state with same | same | same | same <;> cases completed.symm.trans same

theorem Refused.continues {after : Record} (refused : Refused dialect name record caller)
    (goes : Continues record after)
    : Refused dialect name after caller := by
  have finished := refused.barren.1
  exact ⟨(goes.state caller finished).trans refused.state,
    (congrArg seen (goes.own caller finished)).trans refused.own⟩

/-- Whoever settles on an occasion had the turn, and the occasion is about it. -/
theorem Orderly.holds_of_settles (orderly : Orderly record) {occasion : Occasion}
    {outcome : Except CreationError CreatedRoute}
    (going : (record.session.state caller).isOver = false)
    (settled : (record.extend occasion).session.state caller = .settled outcome)
    : record.Holds caller ∧ occasion.action.caller = caller := by
  have next := orderly.extend occasion
  refine ⟨⟨?_, going⟩, ?_⟩
  · refine (Orderly.mem_turnsAfter (next.had caller (.inr ⟨outcome, settled⟩))).resolve_right ?_
    intro front
    have waits := ((next.holds_iff caller).mpr front).2
    rw [settled] at waits
    cases waits
  · by_contra other
    rw [(extend_of_ne record (Ne.symm other)).1] at settled
    rw [settled] at going
    cases going

/-- Whoever has had a turn while somebody else has it is over. -/
theorem Orderly.isOver_of_had (orderly : Orderly record) {holder : Nat}
    (holds : record.Holds holder) (different : holder ≠ caller) (had : caller ∈ record.turns)
    : (record.session.state caller).isOver = true := by
  cases ends : (record.session.state caller).isOver with
  | true => rfl
  | false => exact absurd (orderly.takesTurns.exclusive _ _ holds ⟨had, ends⟩) different

/-- Once a request has created the route, all others are untouched or over. -/
def Apart (jobs : List Job) (dialect : Dialect) (name : String) (record : Record) : Prop :=
  ∀ first second route, Asks jobs dialect name first → Asks jobs dialect name second →
    first ≠ second → Completed record first route →
      Untouched record second ∨ Barren record second

section

variable (absolute : creator.root.isAbsolute = true)
  (short : (creator.root.child (dialect.fileName name)).bytes.length ≤ FileTree.pathLimit)

include absolute short

/-- Every occasion keeps requests for a route apart: one that creates it has the turn then, and
whoever had the turn before has created nothing.
-/
theorem Apart.extend {occasions : List Occasion} {occasion : Occasion}
    (scanned : Scanned creator jobs dialect name (occasions ++ [occasion]))
    (apart : Apart jobs dialect name (of creator jobs occasions))
    : Apart jobs dialect name ((of creator jobs occasions).extend occasion) := by
  intro first second route asks other different completed
  have told := told_of creator jobs occasions
  have orderly := orderly_of creator jobs occasions
  have goes := Continues.extend orderly occasion
  have taken {caller : Nat} {route : CreatedRoute} (asks : Asks jobs dialect name caller)
      (completed : Completed (of creator jobs occasions) caller route) :=
    scanned.of_append.taken absolute short asks completed
      ((scanned occasions occasion [] rfl).stays caller route asks completed)
  generalize of creator jobs occasions = record at *
  cases over' : (record.session.state first).isOver with
  | true =>
      have before := (goes.completed_iff over').mp completed
      rcases apart first second route asks other different before with untouched | barren
      · exact (untouched.extend told other occasion (taken asks before)).imp_right Refused.barren
      · exact .inr (goes.barren barren)
  | false =>
      obtain ⟨holds, about⟩ := orderly.holds_of_settles over' completed
      by_cases had : second ∈ record.turns
      · right
        -- If the second one had created it, the first one would be refused now.
        refine goes.barren ⟨orderly.isOver_of_had holds different had, fun earlier created => ?_⟩
        rcases apart second first earlier other asks different.symm created with
          untouched | barren
        · rcases untouched.extend told asks occasion (taken other created) with
            untouched | refused
          · exact untouched.not_completed completed
          · exact refused.barren.2 route completed
        · cases over'.symm.trans barren.1
      · left
        have aside : second ≠ occasion.action.caller := about.symm ▸ different.symm
        obtain ⟨own, state⟩ := orderly.untouched had
        obtain ⟨sameState, sameOwn⟩ := extend_of_ne record aside
        exact ⟨sameOwn.trans own, sameState ▸ state⟩

/-- Requests for a route are kept apart in every record with a disk, by induction on its occasions.
-/
theorem apart_of {occasions : List Occasion}
    (scanned : Scanned creator jobs dialect name occasions)
    : Apart jobs dialect name (of creator jobs occasions) := by
  induction occasions using List.reverseRecOn with
  | nil =>
      intro first second route asks other different completed
      cases (Orderly.state_opening creator jobs first).symm.trans completed
  | append_singleton occasions occasion ih =>
      rw [of_append]
      exact (ih scanned.of_append).extend absolute short scanned

/-- Whoever gets its turn after a route was created stays untouched or is refused, by induction on
the occasions since.
-/
theorem refused_of {before later : List Occasion}
    (scanned : Scanned creator jobs dialect name (before ++ later))
    {first second : Nat} (asks : Asks jobs dialect name first)
    (other : Asks jobs dialect name second) {route : CreatedRoute}
    (completed : Completed (of creator jobs before) first route)
    (never : second ∉ (of creator jobs before).turns)
    : Untouched (of creator jobs (before ++ later)) second
      ∨ Refused dialect name (of creator jobs (before ++ later)) second := by
  induction later using List.reverseRecOn with
  | nil =>
      rw [List.append_nil]
      exact .inl ((orderly_of creator jobs before).untouched never)
  | append_singleton later occasion ih =>
      rw [← List.append_assoc] at scanned ⊢
      have still : Completed (of creator jobs (before ++ later)) first route :=
        ((continues_of_append creator jobs before later).completed_iff completed.isOver).mpr
          completed
      have taken := scanned.of_append.taken absolute short asks still
        ((scanned _ occasion [] rfl).stays first route asks still)
      rw [of_append creator jobs (before ++ later)]
      rcases ih scanned.of_append with untouched | refused
      · exact untouched.extend (told_of creator jobs _) other occasion taken
      · exact .inr (refused.continues (.extend (orderly_of creator jobs _) occasion))

end

/-- No route is created twice. -/
structure CreatedOnce (creator : Creator) (jobs : List Job) (dialect : Dialect) (name : String)
    (occasions : List Occasion)
    : Prop where
  /-- Whoever gets its turn after a request has created the route is refused, unless it was dropped
  or has not been set going yet.
  -/
  refused (before later : List Occasion) (split : occasions = before ++ later)
    (first second : Nat) (asks : Asks jobs dialect name first)
    (other : Asks jobs dialect name second) (route : CreatedRoute)
    (completed : Completed (of creator jobs before) first route)
    (never : second ∉ (of creator jobs before).turns)
    : Untouched (of creator jobs occasions) second
      ∨ Refused dialect name (of creator jobs occasions) second
  /-- When anyone else is set going in its turn while the file is there, it is refused at once. -/
  atOnce (first second : Nat) (asks : Asks jobs dialect name first)
    (other : Asks jobs dialect name second) (route : CreatedRoute)
    (completed : Completed (of creator jobs occasions) first route)
    (holds : (of creator jobs occasions).Holds second) (occasion : Occasion)
    (delivers : occasion.action = .deliver second .go)
    (stays : occasion.tree.isFile route.path = true)
    : Refused dialect name ((of creator jobs occasions).extend occasion) second
  /-- At most one request creates the route. -/
  once (first second : Nat) (asks : Asks jobs dialect name first)
    (other : Asks jobs dialect name second) (route again : CreatedRoute)
    (completed : Completed (of creator jobs occasions) first route)
    (created : Completed (of creator jobs occasions) second again)
    : first = second

-----------------------------------------------------------------------------------------
-- Two requests, one after the other
-----------------------------------------------------------------------------------------

/-- The occasions on which a request is set going and gets whatever it waits for. -/
def smoothly (caller : Nat) (start tree : FileTree) (path : Path) : List Occasion :=
  [⟨start, 0, .deliver caller .go⟩, ⟨tree, 0, .deliver caller (.dispatched (.ok ()))⟩,
    ⟨tree, 0, .deliver caller (.searched (.ok [path]))⟩,
    ⟨tree, 0, .deliver caller (.looked (some path))⟩]

/-- Whoever goes on has come further than before. -/
theorem session_goesOn {former : Session} {job : Job} {state : CallState}
    (present : former.calls[caller]? = some ⟨job, state⟩)
    (turn : former.line.head? = some caller) {phase next : Phase}
    (reached : record.session = former.withState caller (.active phase)) {tree : FileTree}
    {now : Nat} {reply : Reply}
    (reacts : (former.creator.react tree now job phase reply).phase = next)
    (open' : ∀ outcome, next ≠ .settled outcome)
    : (record.extend ⟨tree, now, .deliver caller reply⟩).session
      = former.withState caller (.active next) := by
  have steps := Session.step_goesOn (Session.getElem?_withState_self present _) (.inr rfl) turn
    reacts open'
  change (record.session.step tree now (.deliver caller reply)).1 = _
  rw [reached, steps]
  exact Session.withState_withState _ _ _ _

/-- The occasions on which a request is set going and its generator is started. -/
def launching (caller : Nat) (start tree : FileTree) : List Occasion :=
  [⟨start, 0, .deliver caller .go⟩, ⟨tree, 0, .deliver caller (.dispatched (.ok ()))⟩]

/-- The occasions on which its file is found, and the editor shows a document. -/
def sighting (caller : Nat) (tree : FileTree) (path document : Path) : List Occasion :=
  [⟨tree, 0, .deliver caller (.searched (.ok [path]))⟩,
    ⟨tree, 0, .deliver caller (.looked (some document))⟩]

section

variable {start tree : FileTree}
  (present : record.session.calls[caller]? = some ⟨.named dialect name, .queued⟩)
  (turn : record.session.line.head? = some caller)
  (accepted : RouteName.check start record.session.creator.root dialect name = .ok ())

include present turn accepted

/-- A request whose name is accepted in its turn waits for its file once its generator has been
started.
-/
theorem session_launching
    : ((launching caller start tree).foldl extend record).session
      = record.session.withState caller
          (.active (.evaluating (.file (.of record.session.creator.root dialect name)
            (0 + record.session.creator.timings.fileTime)))) := by
  have offered : (record.extend ⟨start, 0, .deliver caller .go⟩).session
      = record.session.withState caller
          (.active (.dispatching (.of record.session.creator.root dialect name))) := by
    have reacts : (record.session.creator.react start 0 (.named dialect name) .ready .go).phase
        = .dispatching (.of record.session.creator.root dialect name) := by
      simp [Creator.react, Creator.offer, accepted]
    exact congrArg Prod.fst (Session.step_goesOn present (.inl ⟨rfl, rfl⟩) turn reacts nofun)
  exact @session_goesOn _ _ _ _ _ present turn _ _ offered tree 0 (.dispatched (.ok ())) rfl nofun

/-- It creates its route if its file is found and a document of that name is shown. -/
theorem session_sighting {path document : Path}
    (ends : document.endsWith (Path.ofText (dialect.fileName name)) = true)
    : ((launching caller start tree ++ sighting caller tree path document).foldl extend
          record).session
      = (record.session.withState caller
          (.settled (.ok ⟨.of record.session.creator.root dialect name, path⟩))).leave caller := by
  have started := @session_launching _ _ _ _ start tree present turn accepted
  have found := @session_goesOn _ _ _ _ _ present turn _
    (.evaluating (.focus (.of record.session.creator.root dialect name) path
      (0 + record.session.creator.timings.focusTime)))
    started tree 0 (.searched (.ok [path])) rfl nofun
  have shown (deadline : Nat)
      : (record.session.creator.react tree 0 (.named dialect name)
          (.evaluating (.focus (.of record.session.creator.root dialect name) path deadline))
          (.looked (some document))).phase
        = .settled (.ok ⟨.of record.session.creator.root dialect name, path⟩) := by
    simp [Creator.react, Creator.onLooked, ends, Artifact.of]
  rw [List.foldl_append]
  change (Session.step (((launching caller start tree).foldl extend record).extend
    ⟨tree, 0, .deliver caller (.searched (.ok [path]))⟩).session tree 0
    (.deliver caller (.looked (some document)))).1 = _
  rw [found, Session.step_settles (Session.getElem?_withState_self present _) (.inr rfl) turn
    (shown _)]
  exact congrArg (Session.leave · caller) (Session.withState_withState _ _ _ _)

end

/-- A request whose name is accepted in its turn creates its route if all goes well. -/
theorem session_smoothly {start tree : FileTree} {path : Path}
    (present : record.session.calls[caller]? = some ⟨.named dialect name, .queued⟩)
    (turn : record.session.line.head? = some caller)
    (accepted : RouteName.check start record.session.creator.root dialect name = .ok ())
    (ends : path.endsWith (Path.ofText (dialect.fileName name)) = true)
    : ((smoothly caller start tree path).foldl extend record).session
      = (record.session.withState caller
          (.settled (.ok ⟨.of record.session.creator.root dialect name, path⟩))).leave caller :=
  session_sighting present turn accepted ends

/-- Two requests for the same route. -/
def twins : List Job :=
  [.named .xml "r", .named .xml "r"]

section

variable (start filled : FileTree) (spot : Path)

/-- Both requests come, and the first one creates the route. -/
def firstGoes : List Occasion :=
  [⟨start, 0, .arrive 0⟩, ⟨start, 0, .arrive 1⟩] ++ smoothly 0 start filled spot

/-- The second one goes on as the first one did. -/
def bothGo : List Occasion :=
  firstGoes start filled spot ++ smoothly 1 filled filled spot

end

section

variable {start filled : FileTree} {spot : Path}

theorem tree_of_searched {occasion : Occasion} (member : occasion ∈ bothGo start filled spot)
    {outcome : Except String (List Path)}
    (delivers : occasion.action = .deliver caller (.searched outcome))
    : occasion.tree = filled ∧ outcome = .ok [spot] := by
  simp only [bothGo, firstGoes, smoothly, List.cons_append, List.nil_append, List.mem_cons,
    List.not_mem_nil, or_false] at member
  rcases member with rfl | rfl | rfl | rfl | rfl | rfl | rfl | rfl | rfl | rfl <;>
    simp_all [eq_comm]

/-- Both requests see a disk on which the file stays. -/
theorem scanned_bothGo (named : filled.Named)
    (finds : Inventory.find filled creator.root (Dialect.xml.fileName "r") = .ok [spot])
    (there : filled.isFile spot = true)
    : Scanned creator twins .xml "r" (bothGo start filled spot) := by
  have order : (bothGo start filled spot).Pairwise fun one other =>
      one.tree = filled → other.tree = filled := by
    simp [bothGo, firstGoes, smoothly]
  intro before occasion after split
  have member : occasion ∈ bothGo start filled spot := by simp [split]
  refine ⟨?_, ?_⟩
  · intro caller outcome asks delivers
    obtain ⟨-, rfl⟩ := tree_of_searched member delivers
    exact ⟨filled, named, by rw [finds]; rfl⟩
  · intro caller route asks completed
    obtain ⟨earlier, among, delivers⟩ := answered_of_seen (completed.accepted asks).2
    obtain ⟨disk, found⟩ := tree_of_searched (split ▸ List.mem_append_left _ among) delivers
    rw [split, List.pairwise_append] at order
    rw [order.2.2 earlier among occasion List.mem_cons_self disk,
      List.singleton_inj.mp (Except.ok.inj found)]
    exact there

theorem session_firstGoes
    (accepted : RouteName.check start creator.root .xml "r" = .ok ())
    (ends : spot.endsWith (Path.ofText "r.xml") = true)
    : (of creator twins (firstGoes start filled spot)).session
      = { creator
          calls :=
            [⟨.named .xml "r", .settled (.ok ⟨.of creator.root .xml "r", spot⟩)⟩,
              ⟨.named .xml "r", .queued⟩]
          line := [1] } := by
  rw [firstGoes, of_append]
  exact session_smoothly rfl rfl accepted ends

end

/-- What routes are created with in the root directory. -/
def atTop : Creator :=
  { root := Path.ofText "/" }

/-- The tree with the file of that route only. -/
def filled : FileTree :=
  { entries := [([Bytes.ofText "r.xml"], .file [])] }

/-- Where the file of that route is found. -/
def spot : Path :=
  Path.ofText "/r.xml"

/-- What routes are created with in a deep directory that is written with a few slashes too many. -/
def farDown : Creator :=
  { root := Deep.wide }

/-- The tree with the file of that route in that directory. -/
def filledDeep : FileTree :=
  Deep.holding (Bytes.ofText "r.xml")

/-- Where the file of that route is found in that directory. -/
def deepSpot : Path :=
  Deep.root.child "r.xml"

theorem isName_file : FileTree.IsName (Bytes.ofText "r.xml") :=
  RouteName.isName_of_isPortable (by decide)

/-- Far down the path of the file is too long to be there. -/
theorem check_farDown (tree : FileTree)
    : RouteName.check tree farDown.root .xml "r" = .ok () := by
  have absent := @FileTree.isPresent_of_long tree _ (Deep.pathLimit_lt_child_wide isName_file)
  have here : tree.isPresent (farDown.root.child (Dialect.xml.fileName "r")) = false := absent
  unfold RouteName.check
  simp only [here]
  decide

-----------------------------------------------------------------------------------------
-- No route is created twice
-----------------------------------------------------------------------------------------

/-- No route is created twice, as long as its file stays and the path of the file is not longer than
the system takes.
-/
theorem createdOnce_of {occasions : List Occasion}
    (scanned : Scanned creator jobs dialect name occasions)
    (absolute : creator.root.isAbsolute = true)
    (short : (creator.root.child (dialect.fileName name)).bytes.length ≤ FileTree.pathLimit)
    : CreatedOnce creator jobs dialect name occasions := by
  have apart := apart_of absolute short scanned
  refine ⟨?_, ?_, ?_⟩
  · intro before later split first second asks other route completed never
    subst split
    exact refused_of absolute short scanned asks other completed never
  · intro first second asks other route completed holds occasion delivers stays
    have different : first ≠ second := by
      rintro rfl
      cases holds.2.symm.trans completed.isOver
    rcases apart first second route asks other different completed with untouched | barren
    · exact untouched.go (told_of creator jobs occasions) (orderly_of creator jobs occasions) other
        holds delivers (scanned.taken absolute short asks completed stays)
    · cases holds.2.symm.trans barren.1
  · intro first second asks other route again completed created
    by_contra different
    rcases apart first second route asks other different completed with untouched | barren
    · exact untouched.not_completed created
    · exact barren.2 again created

/-- In the root directory the second one of two requests is refused. -/
theorem createdOnce_root
    : Completed (of atTop twins (firstGoes {} filled spot)) 0 ⟨.of atTop.root .xml "r", spot⟩
      ∧ Refused .xml "r"
        ((of atTop twins (firstGoes {} filled spot)).extend ⟨filled, 0, .deliver 1 .go⟩) 1 := by
  have session := @session_firstGoes atTop {} filled spot (by decide) (by decide)
  have completed : Completed (of atTop twins (firstGoes {} filled spot)) 0
      ⟨.of atTop.root .xml "r", spot⟩ := by
    rw [Completed, session]
    rfl
  have holds : (of atTop twins (firstGoes {} filled spot)).Holds 1 := by
    rw [(orderly_of _ _ _).holds_iff, session]
    rfl
  have named : filled.Named := by
    refine ⟨fun item among name inside => ?_, nofun⟩
    obtain rfl := List.mem_singleton.mp among
    obtain rfl := List.mem_singleton.mp inside
    exact isName_file
  have scanned := @scanned_bothGo atTop {} filled spot named (by decide) (by decide)
  have once := createdOnce_of scanned.of_append (by decide) (by decide)
  exact ⟨completed, once.atOnce 0 1 rfl rfl _ completed holds _ rfl (by decide)⟩

/-- In a deep directory that is written with a few slashes too many, two requests create the same
route: the path that is looked at is too long to be there, but the file is found.
-/
theorem createdTwice_farDown
    : Scanned farDown twins .xml "r" (bothGo Deep.tree filledDeep deepSpot)
      ∧ farDown.root.isAbsolute = true
      ∧ ¬ CreatedOnce farDown twins .xml "r" (bothGo Deep.tree filledDeep deepSpot) := by
  have rooted := Deep.rooted_wide.2 isName_file (by decide)
  have finds := @Inventory.find_wide "r.xml" isName_file (by decide)
  have ends : deepSpot.endsWith (Path.ofText "r.xml") = true :=
    (Path.endsWith_ofText_iff isName_file).mpr
      (Inventory.fileName?_of_find isName_file finds List.mem_cons_self)
  have first := @session_firstGoes farDown Deep.tree filledDeep deepSpot (check_farDown _) ends
  have both := @session_smoothly .xml "r"
    (of farDown twins (firstGoes Deep.tree filledDeep deepSpot)) 1 filledDeep filledDeep deepSpot
    (by rw [first]; rfl) (by rw [first]; rfl) (by rw [first]; exact check_farDown _) ends
  rw [← of_append, first] at both
  have completed (caller : Fin 2)
      : Completed (of farDown twins (bothGo Deep.tree filledDeep deepSpot)) caller
          ⟨.of farDown.root .xml "r", deepSpot⟩ := by
    rw [Completed, bothGo, both]
    fin_cases caller <;> rfl
  have there := Deep.isFile_child_root isName_file (by decide)
  refine ⟨scanned_bothGo rooted.named finds there, rooted.absolute, fun created => ?_⟩
  cases created.once 0 1 rfl rfl _ _ (completed 0) (completed 1)

end Record

end RouteDesk
