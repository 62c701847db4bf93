import RouteDesk.Proofs.Creation.Stages
import RouteDesk.Proofs.Creation.Turns
import RouteDesk.Proofs.Route.Accepted

/-! Requests for a given name in a workspace that is searched on the disk. Once one of them has
created the route, and wherever its file is still there, the name is taken: what the search has
found is the path that is looked at when the name is checked.
-/

namespace RouteDesk

namespace Record

variable {creator : Creator} {jobs : List Job} {dialect : Dialect} {name : String}
  {record : Record} {caller : Nat}

/-- A request for a route of this dialect and name. -/
def Asks (jobs : List Job) (dialect : Dialect) (name : String) (caller : Nat) : Prop :=
  jobs[caller]? = some (.named dialect name)

/-- A request has created a route. -/
def Completed (record : Record) (caller : Nat) (route : CreatedRoute) : Prop :=
  record.session.state caller = .settled (.ok route)

-----------------------------------------------------------------------------------------
-- Searches on the disk
-----------------------------------------------------------------------------------------

/-- An occasion that may come after a record, if requests for a route work with a disk on which the
files of created routes stay.
-/
structure Faithful (creator : Creator) (jobs : List Job) (dialect : Dialect) (name : String)
    (record : Record) (occasion : Occasion)
    : Prop where
  /-- The workspace is searched by looking at the disk, as it is or as it was at some time. -/
  looks (caller : Nat) (outcome : Except String (List Path)) (asks : Asks jobs dialect name caller)
    (delivers : occasion.action = .deliver caller (.searched outcome))
    : ∃ tree : FileTree, tree.Named
        ∧ outcome = (Inventory.find tree creator.root (dialect.fileName name)).mapError
          SearchError.message
  /-- The file of a created route is still where it was found. -/
  stays (caller : Nat) (route : CreatedRoute) (asks : Asks jobs dialect name caller)
    (completed : Completed record caller route)
    : occasion.tree.isFile route.path = true

/-- Every occasion is one that may come after all that came before it. -/
def Scanned (creator : Creator) (jobs : List Job) (dialect : Dialect) (name : String)
    (occasions : List Occasion)
    : Prop :=
  ∀ before occasion after, occasions = before ++ occasion :: after →
    Faithful creator jobs dialect name (of creator jobs before) occasion

/-- Only what is found is answered as found. -/
theorem mapError_eq_ok {ε δ α : Type} {result : Except ε α} {tell : ε → δ} {value : α}
    : result.mapError tell = .ok value ↔ result = .ok value := by
  cases result <;> simp [Except.mapError]

theorem Scanned.of_append {occasions later : List Occasion}
    (scanned : Scanned creator jobs dialect name (occasions ++ later))
    : Scanned creator jobs dialect name occasions := by
  intro before occasion after split
  refine scanned before occasion (after ++ later) ?_
  rw [split, List.append_assoc, List.cons_append]

-----------------------------------------------------------------------------------------
-- Answers
-----------------------------------------------------------------------------------------

/-- What is taken down of a search is what was answered. -/
theorem reply_of_searched {tree : FileTree} {now : Nat} {job : Job} {phase : Phase} {reply : Reply}
    {outcome : Except String (List Path)}
    (searched : .searched outcome ∈ (creator.react tree now job phase reply).events)
    : reply = .searched outcome := by
  have checks (name : String)
      : .searched outcome ∉ (creator.offer tree job.dialect name).events := by
    unfold Creator.offer
    dsimp only
    split <;> simp
  unfold Creator.react at searched
  split at searched
  case h_1 =>
    split at searched
    case h_1 dialect name => exact absurd searched (checks name)
    case h_2 => simp at searched
  case h_3 name => exact absurd searched (checks name)
  case h_5 =>
    split at searched <;> simp at searched
  case h_6 answer =>
    unfold Creator.onSearched at searched
    dsimp only at searched
    split at searched <;> simpa [eq_comm] using searched
  case h_7 =>
    unfold Creator.onLooked at searched
    split at searched <;> simp at searched
  all_goals simp at searched

theorem answered_of_moves {session next : Session} {tree : FileTree} {now : Nat} {action : Action}
    {events : List Event} (moves : session.Moves tree now action next events)
    {outcome : Except String (List Path)} (searched : .searched outcome ∈ events)
    : action = .deliver action.caller (.searched outcome) := by
  cases moves with
  | goesOn =>
      rw [reply_of_searched searched]
      rfl
  | settles =>
      rw [reply_of_searched searched]
      rfl
  | _ => cases searched

/-- Whatever a request has seen of searches was answered to it, by induction on the occasions. -/
theorem answered_of_seen {creator : Creator} {jobs : List Job} {occasions : List Occasion}
    {outcome : Except String (List Path)}
    (searched : .searched outcome ∈ seen ((of creator jobs occasions).own caller))
    : ∃ occasion ∈ occasions, occasion.action = .deliver caller (.searched outcome) := by
  induction occasions using List.reverseRecOn with
  | nil => cases searched
  | append_singleton occasions occasion ih =>
      rw [of_append] at searched
      change .searched outcome ∈ seen ((extend _ occasion).own caller) at searched
      rw [own_extend, seen_append, List.mem_append] at searched
      rcases searched with before | now
      · obtain ⟨other, among, delivers⟩ := ih before
        exact ⟨other, List.mem_append_left _ among, delivers⟩
      · refine ⟨occasion, by simp, ?_⟩
        have moves := Session.moves_step (of creator jobs occasions).session occasion.tree
          occasion.now occasion.action
        split at now
        case isFalse => cases now
        case isTrue about =>
          rw [← about]
          exact answered_of_moves moves (by simpa [seen, Function.comp_def] using now)

-----------------------------------------------------------------------------------------
-- Requests for a name
-----------------------------------------------------------------------------------------

/-- A request for a name asks nobody, and no other name is ever checked for it. -/
structure Literal (name : String) (record : Record) (caller : Nat) : Prop where
  unasked : record.session.state caller ≠ .active .asking
  checks (text : String) (verdict : Except NameError Unit)
    (checked : .checked text verdict ∈ seen (record.own caller))
    : text = name

theorem literal_react (creator : Creator) (tree : FileTree) (now : Nat) {phase : Phase}
    (unasked : phase ≠ .asking) (reply : Reply)
    : (creator.react tree now (.named dialect name) phase reply).phase ≠ .asking
      ∧ ∀ text verdict,
        .checked text verdict ∈ (creator.react tree now (.named dialect name) phase reply).events →
          text = name := by
  unfold Creator.react
  split
  case h_1 =>
    dsimp only [Creator.offer]
    split <;> simp
  case h_2 => exact absurd rfl unasked
  case h_3 => exact absurd rfl unasked
  case h_6 outcome =>
    dsimp only [Creator.onSearched]
    split <;> simp
  case h_7 document =>
    unfold Creator.onLooked
    split <;> simp
  all_goals simp_all

theorem Literal.extend (literal : Literal name record caller) (told : Told creator jobs record)
    (asks : Asks jobs dialect name caller) (occasion : Occasion)
    : Literal name (record.extend occasion) caller := by
  obtain ⟨events, undergoes, own⟩ :=
    undergoes_extend record occasion ((told.job caller).trans asks)
  obtain ⟨unasked, checks⟩ := literal
  suffices (record.extend occasion).session.state caller ≠ .active .asking
      ∧ ∀ text verdict, .checked text verdict ∈ events → text = name by
    refine ⟨this.1, fun text verdict checked => ?_⟩
    rw [own, seen_append, List.mem_append] at checked
    refine checked.elim (checks text verdict) fun now => this.2 text verdict ?_
    simpa [seen] using now
  generalize record.session.state caller = state at unasked undergoes
  generalize (record.extend occasion).session.state caller = reached at undergoes ⊢
  cases undergoes with
  | stays => exact ⟨unasked, by simp⟩
  | joins => exact ⟨nofun, by simp⟩
  | drops => exact ⟨nofun, by simp⟩
  | @moves _ phase reply delivers begun =>
      have open' : phase ≠ .asking := by
        rintro rfl
        rcases begun with ⟨-, impossible⟩ | rfl
        · cases impossible
        · exact unasked rfl
      obtain ⟨still, names⟩ := @literal_react dialect name record.session.creator occasion.tree
        occasion.now phase open' reply
      refine ⟨fun asking => still ?_, names⟩
      generalize Creator.react _ _ _ _ phase reply = reaction at asking
      cases phase : reaction.phase <;> rw [phase] at asking <;>
        first | exact CallState.active.inj asking | cases asking

/-- What is known of a request for a name holds in every record, by induction on its occasions. -/
theorem literal_of (creator : Creator) (asks : Asks jobs dialect name caller)
    (occasions : List Occasion)
    : Literal name (of creator jobs occasions) caller := by
  induction occasions using List.reverseRecOn with
  | nil => exact ⟨by rw [of, List.foldl_nil, Orderly.state_opening]; nofun, by simp [own, of]⟩
  | append_singleton occasions occasion ih =>
      rw [of_append]
      exact ih.extend (told_of creator jobs occasions) asks occasion

-----------------------------------------------------------------------------------------
-- Names that are taken
-----------------------------------------------------------------------------------------

/-- A request creates a route only after a name was accepted for it and a file was found. -/
theorem Completed.checked {occasions : List Occasion} {job : Job}
    (asked : jobs[caller]? = some job) {route : CreatedRoute}
    (completed : Completed (of creator jobs occasions) caller route)
    : (∃ tree text, RouteName.check tree creator.root job.dialect text = .ok ()
        ∧ route.artifact = .of creator.root job.dialect text
        ∧ .checked text (.ok ()) ∈ seen ((of creator jobs occasions).own caller))
      ∧ .searched (.ok [route.path]) ∈ seen ((of creator jobs occasions).own caller) := by
  have traced := (told_of creator jobs occasions).traced caller job asked
  rw [completed] at traced
  obtain ⟨careful, document, -, passed⟩ := traced
  have found : .searched (.ok [route.path]) ∈ seen ((of creator jobs occasions).own caller) :=
    passed.mem (by simp)
  obtain ⟨text, made, order⟩ := passed
  have started : .dispatching route.artifact ∈ seen ((of creator jobs occasions).own caller) :=
    order.subset (List.mem_cons_of_mem _ List.mem_cons_self)
  obtain ⟨before, happening, starts, admissible, within⟩ := careful.of_mem started
  obtain ⟨text, latest, accepted, made⟩ := admissible.accepted _ starts
  have checked : .checked text (.ok ()) ∈ seen before :=
    List.mem_map.mpr ⟨_, List.mem_of_getLast? latest, rfl⟩
  exact ⟨⟨happening.tree, text, accepted, made, within checked⟩, found⟩

/-- A request for a name creates a route only after the name was accepted and a file was found. -/
theorem Completed.accepted {occasions : List Occasion} (asks : Asks jobs dialect name caller)
    {route : CreatedRoute} (completed : Completed (of creator jobs occasions) caller route)
    : (∃ tree, RouteName.check tree creator.root dialect name = .ok ())
      ∧ .searched (.ok [route.path]) ∈ seen ((of creator jobs occasions).own caller) := by
  obtain ⟨⟨tree, text, accepted, -, checked⟩, found⟩ := completed.checked asks
  rw [(literal_of creator asks occasions).checks text _ checked] at accepted
  exact ⟨⟨tree, accepted⟩, found⟩

/-- The path of a created route was found on the disk. -/
theorem Scanned.finds {occasions : List Occasion}
    (scanned : Scanned creator jobs dialect name occasions) (asks : Asks jobs dialect name caller)
    {route : CreatedRoute} (completed : Completed (of creator jobs occasions) caller route)
    : ∃ tree : FileTree, tree.Named
        ∧ Inventory.find tree creator.root (dialect.fileName name) = .ok [route.path] := by
  obtain ⟨occasion, member, delivers⟩ := answered_of_seen (completed.accepted asks).2
  obtain ⟨before, after, split⟩ := List.append_of_mem member
  obtain ⟨tree, named, looked⟩ := (scanned before occasion after split).looks caller _ asks delivers
  exact ⟨tree, named, mapError_eq_ok.mp looked.symm⟩

section

variable (absolute : creator.root.isAbsolute = true)
  (short : (creator.root.child (dialect.fileName name)).bytes.length ≤ FileTree.pathLimit)

include absolute short

/-- Once a route was created, its name is refused as taken wherever its file is. -/
theorem Scanned.taken {occasions : List Occasion}
    (scanned : Scanned creator jobs dialect name occasions) (asks : Asks jobs dialect name caller)
    {route : CreatedRoute} (completed : Completed (of creator jobs occasions) caller route)
    {tree : FileTree} (file : tree.isFile route.path = true)
    : RouteName.check tree creator.root dialect name
      = .error (.taken (dialect.fileName name)) := by
  obtain ⟨⟨former, accepted⟩, -⟩ := completed.accepted asks
  obtain ⟨searched, named, finds⟩ := scanned.finds asks completed
  have proper := RouteName.isName_of_check accepted
  obtain ⟨given, whole⟩ := RouteName.given_of_check accepted
  obtain ⟨-, rooted, read⟩ :=
    Inventory.find_spec named absolute proper finds (List.mem_singleton_self _)
  have there := FileTree.isFile_child absolute proper rooted read short file
  exact RouteName.check_of_isPresent given whole (FileTree.isPresent_of_isFile there)

end

end Record

end RouteDesk
