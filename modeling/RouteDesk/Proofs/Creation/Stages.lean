import RouteDesk.Proofs.Creation.Record

/-! The stages of a request: a name is accepted, the generator is started for it, the workspace is
searched for the file, and the editor is looked at. Whatever the surroundings answer, no stage is
entered before the one ahead of it has succeeded, and the outcome tells how far the request came.
-/

namespace RouteDesk

namespace Event

/-- Whether the event belongs to the search for a name that the generator can be started with. -/
def isAttempt : Event → Bool
  | .checked _ _ | .asked | .dispatching _ | .dispatched _ | .reported _ => true
  | _ => false

/-- Whether the event belongs to the search for the file. -/
def isSearch : Event → Bool
  | .searching _ | .searched _ => true
  | _ => false

/-- Whether the event is a search that has failed, or has not found just one file. -/
def isMiss : Event → Bool
  | .searched (.ok [_]) => false
  | .searched _ => true
  | _ => false

end Event

namespace Record

section

variable (creator : Creator) (dialect : Dialect)

-----------------------------------------------------------------------------------------
-- What may happen when
-----------------------------------------------------------------------------------------

/-- What a request has seen of its surroundings. -/
def seen (trace : List Happening) : List Event :=
  trace.map Happening.event

/-- What may happen to a request to which some things have happened before. -/
structure Admissible (before : List Happening) (happening : Happening) : Prop where
  /-- The generator is started only for a name that was accepted just now. -/
  accepted (artifact : Artifact) (starts : happening.event = .dispatching artifact)
    : ∃ name, before.getLast? = some { happening with event := .checked name (.ok ()) }
        ∧ RouteName.check happening.tree creator.root dialect name = .ok ()
        ∧ artifact = .of creator.root dialect name
  /-- Once the generator has been started, nothing is asked, checked or started any more. -/
  once (attempt : happening.event.isAttempt = true) : .dispatched (.ok ()) ∉ seen before
  /-- The workspace is not searched before the generator has been started. -/
  searches (search : happening.event.isSearch = true) : .dispatched (.ok ()) ∈ seen before
  /-- The editor is not looked at before a search has found just one file. -/
  looks (document : Option Path) (look : happening.event = .looked document)
    : ∃ found, .searched (.ok [found]) ∈ seen before
  /-- After any other search nothing comes but the next one. -/
  again (last : Happening) (latest : before.getLast? = some last)
    (miss : last.event.isMiss = true)
    : ∃ fileName, happening.event = .searching fileName

/-- Everything that has happened was admissible after all that came before it. -/
def Careful (trace : List Happening) : Prop :=
  ∀ before happening after, trace = before ++ happening :: after →
    Admissible creator dialect before happening

/-- Some things were seen in this order: a name was accepted, the generator was started for its
artifact, and then some more.
-/
def Passed (artifact : Artifact) (more : List Event) (trace : List Happening) : Prop :=
  ∃ name, artifact = .of creator.root dialect name
    ∧ (Event.checked name (.ok ()) :: .dispatching artifact :: more).Sublist (seen trace)

/-- What must have been seen for an outcome. -/
def Earned (trace : List Happening) : Except CreationError CreatedRoute → Prop
  | .ok route =>
      ∃ document, document.endsWith (Path.ofText route.artifact.fileName) = true
        ∧ Passed creator dialect route.artifact
          [.dispatched (.ok ()), .searched (.ok [route.path]), .looked (some document)] trace
  | .error (.tooLate .file fileName _) =>
      ∃ artifact, fileName = artifact.fileName
        ∧ Passed creator dialect artifact [.dispatched (.ok ())] trace
        ∧ ∀ document, .looked document ∉ seen trace
  | .error (.tooLate .focus fileName _) =>
      ∃ artifact found, fileName = artifact.fileName
        ∧ Passed creator dialect artifact
          [.dispatched (.ok ()), .searched (.ok [found])] trace
  | .error (.badName _) | .error .noName | .error (.generator _) =>
      .dispatched (.ok ()) ∉ seen trace

/-- The latest thing that has happened is not a search in vain. -/
def Fresh (trace : List Happening) : Prop :=
  ∀ last, trace.getLast? = some last → last.event.isMiss = false

/-- What has been seen of the surroundings in a phase. -/
def Stage (trace : List Happening) : Phase → Prop
  | .ready | .asking => .dispatched (.ok ()) ∉ seen trace ∧ Fresh trace
  | .dispatching artifact =>
      .dispatched (.ok ()) ∉ seen trace ∧ Fresh trace ∧ Passed creator dialect artifact [] trace
  | .evaluating (.file artifact _) =>
      (∀ document, .looked document ∉ seen trace) ∧ Fresh trace
        ∧ Passed creator dialect artifact [.dispatched (.ok ())] trace
  | .resting (.file artifact _) _ =>
      (∀ document, .looked document ∉ seen trace)
        ∧ Passed creator dialect artifact [.dispatched (.ok ())] trace
  | .evaluating (.focus artifact found _) | .resting (.focus artifact found _) _ =>
      Fresh trace
        ∧ Passed creator dialect artifact
          [.dispatched (.ok ()), .searched (.ok [found])] trace
  | .settled outcome => Earned creator dialect trace outcome

end

variable {creator : Creator} {dialect : Dialect} {trace : List Happening}

-----------------------------------------------------------------------------------------
-- One thing more
-----------------------------------------------------------------------------------------

@[simp] theorem seen_append (trace more : List Happening)
    : seen (trace ++ more) = seen trace ++ seen more :=
  List.map_append

@[simp] theorem seen_cons (happening : Happening) (more : List Happening)
    : seen (happening :: more) = happening.event :: seen more :=
  rfl

@[simp] theorem seen_nil : seen [] = [] :=
  rfl

theorem Careful.nil : Careful creator dialect [] := by
  intro before happening after split
  simp at split

theorem Careful.append (careful : Careful creator dialect trace) {happening : Happening}
    (admissible : Admissible creator dialect trace happening)
    : Careful creator dialect (trace ++ [happening]) := by
  intro before other after split
  rcases List.eq_nil_or_concat after with rfl | ⟨after, last, rfl⟩
  · obtain ⟨rfl, same⟩ := List.append_inj' split rfl
    obtain rfl := List.singleton_inj.mp same
    exact admissible
  · rw [List.concat_eq_append, ← List.cons_append, ← List.append_assoc] at split
    exact careful before other after (List.append_inj' split rfl).1

/-- Whatever was seen was admissible after things that were seen as well. -/
theorem Careful.of_mem (careful : Careful creator dialect trace) {event : Event}
    (member : event ∈ seen trace)
    : ∃ before happening, happening.event = event
        ∧ Admissible creator dialect before happening ∧ seen before ⊆ seen trace := by
  obtain ⟨happening, among, same⟩ := List.mem_map.mp member
  obtain ⟨before, after, split⟩ := List.append_of_mem among
  refine ⟨before, happening, same, careful before happening after split, ?_⟩
  rw [split, seen_append]
  exact List.subset_append_left _ _

/-- The editor is not looked at before the generator has been started. -/
theorem Careful.unlooked (careful : Careful creator dialect trace)
    (unlaunched : .dispatched (.ok ()) ∉ seen trace) (document : Option Path)
    : .looked document ∉ seen trace := by
  intro looked
  obtain ⟨before, look, same, admissible, within⟩ := careful.of_mem looked
  obtain ⟨found, spotted⟩ := admissible.looks document same
  obtain ⟨earlier, search, same, admissible, within'⟩ := careful.of_mem (within spotted)
  exact unlaunched (within' (admissible.searches (by rw [same]; rfl)))

theorem fresh_append (trace : List Happening) {happening : Happening}
    (hit : happening.event.isMiss = false)
    : Fresh (trace ++ [happening]) := by
  intro last latest
  rw [List.getLast?_concat] at latest
  exact Option.some.inj latest ▸ hit

namespace Passed

variable {artifact : Artifact} {more : List Event}

theorem mem (passed : Passed creator dialect artifact more trace) {event : Event}
    (among : event ∈ more)
    : event ∈ seen trace := by
  obtain ⟨name, -, order⟩ := passed
  exact order.subset (List.mem_cons_of_mem _ (List.mem_cons_of_mem _ among))

theorem append (passed : Passed creator dialect artifact more trace) (happening : Happening)
    : Passed creator dialect artifact more (trace ++ [happening]) := by
  obtain ⟨name, made, order⟩ := passed
  refine ⟨name, made, order.trans ?_⟩
  rw [seen_append]
  exact List.sublist_append_left _ _

theorem next (passed : Passed creator dialect artifact more trace) (tree : FileTree)
    (now caller : Nat) (event : Event)
    : Passed creator dialect artifact (more ++ [event])
        (trace ++ [⟨tree, now, caller, event⟩]) := by
  obtain ⟨name, made, order⟩ := passed
  refine ⟨name, made, ?_⟩
  rw [seen_append]
  exact order.append (List.Sublist.refl [event])

end Passed

namespace Admissible

variable {happening : Happening}

theorem attempt (unlaunched : .dispatched (.ok ()) ∉ seen trace) (fresh : Fresh trace)
    (attempt : happening.event.isAttempt = true)
    (other : ∀ artifact, happening.event ≠ .dispatching artifact)
    : Admissible creator dialect trace happening where
  accepted artifact starts := absurd starts (other artifact)
  once _ := unlaunched
  searches search := by
    cases event : happening.event <;> rw [event] at attempt search <;> cases attempt <;>
      cases search
  looks document look := by
    rw [look] at attempt
    cases attempt
  again last latest miss := by
    rw [fresh last latest] at miss
    cases miss

theorem search (launched : .dispatched (.ok ()) ∈ seen trace)
    (search : happening.event.isSearch = true)
    (turn : (∃ fileName, happening.event = .searching fileName) ∨ Fresh trace)
    : Admissible creator dialect trace happening where
  accepted artifact starts := by
    rw [starts] at search
    cases search
  once attempt := by
    cases event : happening.event <;> rw [event] at attempt search <;> cases attempt <;>
      cases search
  searches _ := launched
  looks document look := by
    rw [look] at search
    cases search
  again last latest miss := by
    refine turn.resolve_right fun fresh => ?_
    rw [fresh last latest] at miss
    cases miss

theorem look {document : Option Path} {found : Path} {tree : FileTree} {now caller : Nat}
    (spotted : .searched (.ok [found]) ∈ seen trace) (fresh : Fresh trace)
    : Admissible creator dialect trace ⟨tree, now, caller, .looked document⟩ where
  accepted artifact starts := by cases starts
  once attempt := by cases attempt
  searches search := by cases search
  looks _ _ := ⟨found, spotted⟩
  again last latest miss := by
    rw [fresh last latest] at miss
    cases miss

end Admissible

-----------------------------------------------------------------------------------------
-- Reactions
-----------------------------------------------------------------------------------------

/-- Everything so far was admissible, and the phase was earned by it. -/
structure Staged (creator : Creator) (dialect : Dialect) (trace : List Happening)
    (phase : Phase) : Prop where
  careful : Careful creator dialect trace
  stage : Stage creator dialect trace phase

section

variable {tree : FileTree} {now caller : Nat}

/-- The trace with what a reaction adds to it. -/
def after (trace : List Happening) (tree : FileTree) (now caller : Nat)
    (reaction : Reaction)
    : List Happening :=
  trace ++ reaction.events.map (Happening.mk tree now caller)

@[simp] theorem after_nil (trace : List Happening) (phase : Phase) (log : Log)
    : after trace tree now caller ⟨phase, [], log⟩ = trace :=
  List.append_nil trace

@[simp] theorem after_cons (trace : List Happening) (phase : Phase) (event : Event)
    (events : List Event) (log : Log)
    : after trace tree now caller ⟨phase, event :: events, log⟩
      = after (trace ++ [⟨tree, now, caller, event⟩]) tree now caller ⟨phase, events, log⟩ := by
  simp [after]

theorem staged_offer (careful : Careful creator dialect trace)
    (unlaunched : .dispatched (.ok ()) ∉ seen trace) (fresh : Fresh trace) (name : String)
    : Staged creator dialect (after trace tree now caller (creator.offer tree dialect name))
        (creator.offer tree dialect name).phase := by
  have checked (verdict : Except NameError Unit)
      : Careful creator dialect (trace ++ [⟨tree, now, caller, .checked name verdict⟩]) :=
    careful.append (.attempt unlaunched fresh rfl (by simp))
  have still (verdict : Except NameError Unit)
      : .dispatched (.ok ()) ∉ seen (trace ++ [⟨tree, now, caller, .checked name verdict⟩]) := by
    simpa using unlaunched
  unfold Creator.offer
  dsimp only
  split
  case h_1 reason refused =>
    rw [refused]
    exact ⟨checked _, still _⟩
  case h_2 accepted =>
    rw [accepted]
    rw [after_cons, after_cons, after_nil]
    refine ⟨(checked _).append ?_, ?_, fresh_append _ rfl, name, rfl, ?_⟩
    · exact {
        accepted := fun artifact starts => by
          cases starts
          exact ⟨name, List.getLast?_concat, accepted, rfl⟩
        once := fun _ => still _
        searches := fun search => by cases search
        looks := fun document look => by cases look
        again := fun last latest miss => by
          rw [fresh_append trace rfl last latest] at miss
          cases miss }
    · simpa using unlaunched
    · simp

theorem staged_searched {artifact : Artifact} {deadline : Nat}
    (staged : Staged creator dialect trace (.evaluating (.file artifact deadline)))
    (outcome : Except String (List Path))
    : Staged creator dialect
        (after trace tree now caller (creator.onSearched now artifact deadline outcome))
        (creator.onSearched now artifact deadline outcome).phase := by
  obtain ⟨careful, unlooked, fresh, passed⟩ := staged
  have admissible : Admissible creator dialect trace ⟨tree, now, caller, .searched outcome⟩ :=
    .search (passed.mem List.mem_cons_self) rfl (.inr fresh)
  unfold Creator.onSearched
  dsimp only
  split
  case h_1 found =>
    exact ⟨careful.append admissible, fresh_append _ rfl, passed.next tree now caller _⟩
  all_goals exact ⟨careful.append admissible,
    fun document => by simpa [after] using unlooked document, passed.append _⟩

theorem staged_looked {artifact : Artifact} {found : Path} {deadline : Nat}
    (staged : Staged creator dialect trace (.evaluating (.focus artifact found deadline)))
    (document : Option Path)
    : Staged creator dialect
        (after trace tree now caller (creator.onLooked now artifact found deadline document))
        (creator.onLooked now artifact found deadline document).phase := by
  obtain ⟨careful, fresh, passed⟩ := staged
  have admissible : Admissible creator dialect trace ⟨tree, now, caller, .looked document⟩ :=
    .look (passed.mem (List.mem_cons_of_mem _ List.mem_cons_self)) fresh
  unfold Creator.onLooked
  split
  case isTrue matched =>
    obtain ⟨path, rfl, suffix⟩ := Option.any_eq_true _ _ |>.mp matched
    exact ⟨careful.append admissible, path, suffix, passed.next tree now caller _⟩
  case isFalse => exact ⟨careful.append admissible, fresh_append _ rfl, passed.append _⟩

theorem staged_expired (watch : Watch)
    (staged : Staged creator dialect trace (.evaluating watch)
      ∨ ∃ wake, Staged creator dialect trace (.resting watch wake))
    : Staged creator dialect trace (.settled (.error (creator.expired watch))) := by
  cases watch with
  | file artifact deadline =>
      rcases staged with ⟨careful, unlooked, -, passed⟩ | ⟨wake, careful, unlooked, passed⟩
      · exact ⟨careful, artifact, rfl, passed, unlooked⟩
      · exact ⟨careful, artifact, rfl, passed, unlooked⟩
  | focus artifact found deadline =>
      rcases staged with ⟨careful, -, passed⟩ | ⟨wake, careful, -, passed⟩
      · exact ⟨careful, artifact, found, rfl, passed⟩
      · exact ⟨careful, artifact, found, rfl, passed⟩

/-- Every reply moves a request on from one stage to the next, by cases of the phase and the
reply.
-/
theorem staged_react {job : Job} {phase : Phase}
    (staged : Staged creator job.dialect trace phase) (reply : Reply)
    : Staged creator job.dialect
        (after trace tree now caller (creator.react tree now job phase reply))
        (creator.react tree now job phase reply).phase := by
  unfold Creator.react
  split
  case h_1 =>
    obtain ⟨careful, unlaunched, fresh⟩ := staged
    split
    case h_1 dialect name => exact staged_offer careful unlaunched fresh name
    case h_2 =>
      exact ⟨careful.append (.attempt unlaunched fresh rfl (by simp)),
        by simpa [after] using unlaunched, fresh_append _ rfl⟩
  case h_2 =>
    rw [after_nil]
    exact ⟨staged.careful, staged.stage.1⟩
  case h_3 name =>
    obtain ⟨careful, unlaunched, fresh⟩ := staged
    exact staged_offer careful unlaunched fresh name
  case h_4 artifact =>
    obtain ⟨careful, unlaunched, fresh, passed⟩ := staged
    rw [after_cons, after_cons, after_nil]
    have starts : Admissible creator job.dialect trace
        ⟨tree, now, caller, .dispatched (.ok ())⟩ :=
      .attempt unlaunched fresh rfl (by simp)
    have launched := passed.next tree now caller (.dispatched (.ok ()))
    have searches := (careful.append starts).append
      (@Admissible.search creator job.dialect _ ⟨tree, now, caller, .searching artifact.fileName⟩
        (launched.mem List.mem_cons_self) rfl (.inl ⟨_, rfl⟩))
    have unlooked := careful.unlooked unlaunched
    exact ⟨searches, fun document => by simpa using unlooked document, fresh_append _ rfl,
      launched.append _⟩
  case h_5 artifact reason =>
    obtain ⟨careful, unlaunched, fresh, -⟩ := staged
    have fails : Admissible creator job.dialect trace
        ⟨tree, now, caller, .dispatched (.error reason)⟩ :=
      .attempt unlaunched fresh rfl (by simp)
    have failed : .dispatched (.ok ())
        ∉ seen (trace ++ [⟨tree, now, caller, .dispatched (.error reason)⟩]) := by
      simpa using unlaunched
    split
    case h_1 => exact ⟨careful.append fails, failed⟩
    case h_2 =>
      rw [after_cons, after_cons, after_cons, after_nil]
      have reports := (careful.append fails).append
        (@Admissible.attempt creator _ _ ⟨tree, now, caller, .reported reason.chain⟩ failed
          (fresh_append _ rfl) rfl (by simp))
      have reported : .dispatched (.ok ())
          ∉ seen (trace ++ [⟨tree, now, caller, .dispatched (.error reason)⟩]
            ++ [⟨tree, now, caller, .reported reason.chain⟩]) := by
        simpa using failed
      refine ⟨reports.append (.attempt reported (fresh_append _ rfl) rfl (by simp)), ?_,
        fresh_append _ rfl⟩
      simpa using reported
  case h_6 outcome => exact staged_searched staged outcome
  case h_7 document => exact staged_looked staged document
  case h_8 artifact deadline wake =>
    obtain ⟨careful, unlooked, passed⟩ := staged
    refine ⟨careful.append (.search (passed.mem List.mem_cons_self) rfl (.inl ⟨_, rfl⟩)), ?_⟩
    exact ⟨fun document => by simpa [after] using unlooked document, fresh_append _ rfl,
      passed.append _⟩
  case h_9 =>
    rw [after_nil]
    exact ⟨staged.careful, staged.stage⟩
  case h_10 watch =>
    rw [after_nil]
    exact staged_expired watch (.inl staged)
  case h_11 watch wake =>
    rw [after_nil]
    exact staged_expired watch (.inr ⟨wake, staged⟩)
  case h_12 =>
    rw [after_nil]
    exact staged

end

-----------------------------------------------------------------------------------------
-- Requests in a session
-----------------------------------------------------------------------------------------

/-- How the events of a request fit how far it has come. -/
def Traced (creator : Creator) (dialect : Dialect) (trace : List Happening)
    : CallState → Prop
  | .absent | .queued => trace = []
  | .active phase => Staged creator dialect trace phase
  | .settled outcome => Staged creator dialect trace (.settled outcome)
  | .dropped => Careful creator dialect trace

theorem Traced.careful {state : CallState} (traced : Traced creator dialect trace state)
    : Careful creator dialect trace := by
  cases state with
  | absent =>
      obtain rfl : trace = [] := traced
      exact .nil
  | queued =>
      obtain rfl : trace = [] := traced
      exact .nil
  | active phase => exact Staged.careful traced
  | settled outcome => exact Staged.careful traced
  | dropped => exact traced

/-- A request that has got its turn is where it can go on from. -/
theorem Traced.staged {state : CallState} {phase : Phase}
    (traced : Traced creator dialect trace state)
    (begun : state = .queued ∧ phase = .ready ∨ state = .active phase)
    : Staged creator dialect trace phase := by
  rcases begun with ⟨rfl, rfl⟩ | rfl
  · obtain rfl : trace = [] := traced
    exact ⟨.nil, List.not_mem_nil, fun last latest => by cases latest⟩
  · exact traced

theorem Traced.of_phase {phase : Phase} (staged : Staged creator dialect trace phase)
    : Traced creator dialect trace phase.state := by
  cases phase <;> exact staged

/-- What every move keeps: all requests are as far as their events tell. -/
structure Told (creator : Creator) (jobs : List Job) (record : Record) : Prop where
  made : record.session.creator = creator
  job (caller : Nat) : record.session.job? caller = jobs[caller]?
  traced (caller : Nat) (job : Job) (asked : jobs[caller]? = some job)
    : Traced creator job.dialect (record.own caller) (record.session.state caller)

namespace Told

variable {jobs : List Job} {record : Record}

theorem opening (creator : Creator) (jobs : List Job)
    : Told creator jobs { session := .opening creator jobs } where
  made := rfl
  job caller := by
    rw [Session.job?, Session.opening, List.getElem?_map]
    cases jobs[caller]? <;> rfl
  traced caller job asked := by
    have absent : (Session.opening creator jobs).state caller = .absent := by
      simp [Session.state, Session.opening, asked]
    rw [absent]
    rfl

/-- Every move keeps the requests as far as their events tell, by cases of what a request undergoes.
-/
theorem extend (told : Told creator jobs record) (occasion : Occasion)
    : Told creator jobs (record.extend occasion) := by
  have moves := Session.moves_step record.session occasion.tree occasion.now occasion.action
  refine ⟨moves.keeps.2.trans told.made, fun caller =>
    (moves.keeps.1 caller).trans (told.job caller), fun caller job asked => ?_⟩
  have before := told.traced caller job asked
  obtain ⟨events, undergoes, own⟩ :=
    undergoes_extend record occasion ((told.job caller).trans asked)
  rw [own]
  generalize record.session.state caller = state at before undergoes
  generalize (record.extend occasion).session.state caller = reached at undergoes ⊢
  rw [told.made] at undergoes
  cases undergoes with
  | stays => rwa [List.map_nil, List.append_nil]
  | joins => rwa [List.map_nil, List.append_nil]
  | drops =>
      rw [List.map_nil, List.append_nil]
      exact before.careful
  | @moves _ phase reply delivers begun =>
      exact Traced.of_phase (staged_react (before.staged begun) reply)

end Told

/-- Every record tells how far its requests have come, by induction on its occasions. -/
theorem told_of (creator : Creator) (jobs : List Job) (occasions : List Occasion)
    : Told creator jobs (of creator jobs occasions) :=
  of_induction (.opening creator jobs) (fun _ occasion told => told.extend occasion) occasions

/-- What has happened to a request that has come so far, and what came of it. -/
structure StageSafe (creator : Creator) (dialect : Dialect) (trace : List Happening)
    (state : CallState) : Prop where
  careful : Careful creator dialect trace
  earned (outcome : Except CreationError CreatedRoute) (settled : state = .settled outcome)
    : Earned creator dialect trace outcome

/-- Requests go through their stages one after the other, whatever their surroundings answer
and whoever else asks for what.
-/
theorem stageSafe_of (creator : Creator) (jobs : List Job) (occasions : List Occasion)
    (caller : Fin jobs.length)
    : StageSafe creator jobs[caller].dialect ((of creator jobs occasions).own caller)
        ((of creator jobs occasions).session.state caller) := by
  have told := told_of creator jobs occasions
  have traced := told.traced caller jobs[caller] (List.getElem?_eq_getElem caller.isLt)
  refine ⟨traced.careful, fun outcome settled => ?_⟩
  rw [settled] at traced
  exact Staged.stage traced

end Record

end RouteDesk
