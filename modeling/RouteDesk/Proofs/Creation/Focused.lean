import RouteDesk.Proofs.Creation.Collisions

/-! The document that completes a request. It bears the name of the file that a search has found,
but it need not be that file: it is if and only if it lies in the same directory, which is the
root. A document of that name from another directory completes the request as well.
-/

namespace RouteDesk

namespace Record

variable {creator : Creator} {jobs : List Job} {caller : Nat} {trace : List Happening}

-----------------------------------------------------------------------------------------
-- Searches and looks
-----------------------------------------------------------------------------------------

/-- What a search for the file of an artifact answers on a disk as it is or was at some time. -/
def Searched (creator : Creator) (artifact : Artifact) (outcome : Except String (List Path))
    : Prop :=
  ∃ tree : FileTree, tree.Named
    ∧ outcome = (Inventory.find tree creator.root artifact.fileName).mapError SearchError.message

/-- Whoever waits for a file is answered by searches on the disk. -/
def Scanning (creator : Creator) (jobs : List Job) (occasions : List Occasion) : Prop :=
  ∀ before occasion after, occasions = before ++ occasion :: after →
    ∀ (caller : Fin jobs.length) (artifact : Artifact) (deadline : Nat)
      (outcome : Except String (List Path)),
      (of creator jobs before).session.state caller
          = .active (.evaluating (.file artifact deadline)) →
        occasion.action = .deliver caller (.searched outcome) → Searched creator artifact outcome

theorem Scanning.of_append {occasions later : List Occasion}
    (scanning : Scanning creator jobs (occasions ++ later))
    : Scanning creator jobs occasions := by
  intro before occasion after split
  refine scanning before occasion (after ++ later) ?_
  rw [split, List.append_assoc, List.cons_append]

/-- The last thing that was seen is a document whose path ends in the name of the artifact. -/
def Decides (artifact : Artifact) (trace : List Happening) (document : Path) : Prop :=
  trace.getLast?.map Happening.event = some (.looked (some document))
    ∧ document.endsWith (Path.ofText artifact.fileName) = true

/-- What is known in a phase of the file that was found and of the document that was seen. -/
def Sighted (creator : Creator) (trace : List Happening) : Phase → Prop
  | .evaluating (.focus artifact found _) | .resting (.focus artifact found _) _ =>
      Searched creator artifact (.ok [found])
  | .settled (.ok route) =>
      Searched creator route.artifact (.ok [route.path])
        ∧ ∃ document, Decides route.artifact trace document
  | _ => True

theorem sighted_offer (tree : FileTree) (dialect : Dialect) (name : String)
    : Sighted creator trace (creator.offer tree dialect name).phase := by
  unfold Creator.offer
  dsimp only
  split <;> trivial

/-- Every reply moves a request on to what is known then, by cases of the phase and the reply. -/
theorem sighted_react {phase : Phase} (sighted : Sighted creator trace phase) {reply : Reply}
    (scans : ∀ artifact deadline outcome, phase = .evaluating (.file artifact deadline) →
      reply = .searched outcome → Searched creator artifact outcome)
    (tree : FileTree) (now : Nat) (job : Job)
    : Sighted creator (after trace tree now caller (creator.react tree now job phase reply))
        (creator.react tree now job phase reply).phase := by
  unfold Creator.react
  split
  case h_1 =>
    split
    case h_1 dialect name => exact sighted_offer tree dialect name
    case h_2 => trivial
  case h_3 name => exact sighted_offer tree job.dialect name
  case h_5 => split <;> trivial
  case h_6 artifact deadline outcome =>
    unfold Creator.onSearched
    dsimp only
    split
    case h_1 found => exact scans artifact deadline (.ok [found]) rfl rfl
    all_goals trivial
  case h_7 artifact found deadline document =>
    unfold Creator.onLooked
    split
    case isTrue matched =>
      obtain ⟨path, rfl, ends⟩ := Option.any_eq_true _ _ |>.mp matched
      exact ⟨sighted, path, by simp, ends⟩
    case isFalse => exact sighted
  case h_9 => exact sighted
  case h_12 =>
    rw [after_nil]
    exact sighted
  all_goals trivial

/-- What is known of a request that has come so far. -/
def Spotted (creator : Creator) (trace : List Happening) : CallState → Prop
  | .active phase => Sighted creator trace phase
  | .settled outcome => Sighted creator trace (.settled outcome)
  | _ => True

theorem Spotted.of_phase {phase : Phase} (sighted : Sighted creator trace phase)
    : Spotted creator trace phase.state := by
  cases phase <;> exact sighted

theorem Spotted.sighted {state : CallState} {phase : Phase}
    (spotted : Spotted creator trace state)
    (begun : state = .queued ∧ phase = .ready ∨ state = .active phase)
    : Sighted creator trace phase := by
  rcases begun with ⟨-, rfl⟩ | rfl
  · trivial
  · exact spotted

/-- What is known of a request holds in every record, by induction on its occasions. -/
theorem spotted_of {occasions : List Occasion} (scanning : Scanning creator jobs occasions)
    (caller : Fin jobs.length)
    : Spotted creator ((of creator jobs occasions).own caller)
        ((of creator jobs occasions).session.state caller) := by
  induction occasions using List.reverseRecOn with
  | nil =>
      rw [of, List.foldl_nil, Orderly.state_opening]
      trivial
  | append_singleton occasions occasion ih =>
      have before := ih scanning.of_append
      have told := told_of creator jobs occasions
      have scans := scanning occasions occasion [] rfl caller
      rw [of_append]
      change Spotted creator ((extend _ occasion).own caller)
        ((extend _ occasion).session.state caller)
      obtain ⟨events, undergoes, own⟩ := undergoes_extend _ occasion
        ((told.job caller).trans (List.getElem?_eq_getElem caller.isLt))
      rw [own]
      rw [told.made] at undergoes
      generalize (of creator jobs occasions).session.state caller = state
        at before undergoes scans
      generalize (extend _ occasion).session.state caller = reached at undergoes ⊢
      cases undergoes with
      | stays => rwa [List.map_nil, List.append_nil]
      | joins => trivial
      | drops => trivial
      | @moves _ phase reply delivers begun =>
          refine .of_phase (sighted_react (before.sighted begun) ?_ _ _ _)
          rintro artifact deadline outcome rfl rfl
          rcases begun with ⟨-, impossible⟩ | rfl
          · cases impossible
          · exact scans artifact deadline outcome rfl delivers

-----------------------------------------------------------------------------------------
-- The document and the file
-----------------------------------------------------------------------------------------

/-- The document that completed a request, next to the file of its route. -/
structure Focused (creator : Creator) (trace : List Happening) (route : CreatedRoute)
    (document : Path)
    : Prop where
  /-- Nothing has happened to the request since the editor showed the document. -/
  decides : trace.getLast?.map Happening.event = some (.looked (some document))
  /-- The request has searched for the file, and it was the only one on the disk. -/
  found : .searched (.ok [route.path]) ∈ seen trace
    ∧ ∃ tree : FileTree, tree.Named
      ∧ Inventory.find tree creator.root route.artifact.fileName = .ok [route.path]
  /-- Both bear the name of the artifact. -/
  bears : document.fileName? = some (Bytes.ofText route.artifact.fileName)
    ∧ route.path.fileName? = some (Bytes.ofText route.artifact.fileName)
  /-- The file lies directly in the root. -/
  inRoot (absolute : creator.root.isAbsolute = true)
    : route.path.parent? = some (Path.ofComponents creator.root.components)
  /-- The document is the file if and only if it lies in the same directory. -/
  same_iff : document.agrees route.path = true ↔ document.parent? = route.path.parent?

-----------------------------------------------------------------------------------------
-- Documents of the same name
-----------------------------------------------------------------------------------------

/-- A request for a name waits for the file of its artifact and for no other. -/
theorem artifact_of_waits {dialect : Dialect} {name : String}
    (asks : Asks jobs dialect name caller) {occasions : List Occasion} {artifact : Artifact}
    {deadline : Nat}
    (waits : (of creator jobs occasions).session.state caller
      = .active (.evaluating (.file artifact deadline)))
    : artifact = .of creator.root dialect name := by
  have traced := (told_of creator jobs occasions).traced caller _ asks
  rw [waits] at traced
  obtain ⟨careful, unlooked, fresh, text, made, order⟩ := traced
  have checked := order.subset List.mem_cons_self
  rw [made, (literal_of creator asks occasions).checks text _ checked]
  rfl

/-- A tree with another file of that name in a directory of its own. -/
def doubled : FileTree :=
  { entries :=
      [([Bytes.ofText "r.xml"], .file []), ([Bytes.ofText "nested"], .directory),
        ([Bytes.ofText "nested", Bytes.ofText "r.xml"], .file (Bytes.ofText "other"))] }

/-- Where that other file is. -/
def nested : Path :=
  Path.ofText "/nested/r.xml"

/-- The only request for the route sees this document once its file is found. -/
def showing (document : Path) : List Occasion :=
  ⟨{}, 0, .arrive 0⟩ :: (launching 0 {} doubled ++ sighting 0 doubled spot document)

theorem scanning_showing (document : Path)
    : Scanning atTop [.named .xml "r"] (showing document) := by
  have portable (name : String) (among : name ∈ ["r.xml", "nested"])
      : FileTree.IsName (Bytes.ofText name) :=
    RouteName.isName_of_isPortable (by revert name; decide)
  have named : doubled.Named := by
    refine ⟨fun item among bytes inside => ?_, nofun⟩
    simp only [doubled, List.mem_cons, List.not_mem_nil, or_false] at among
    rcases among with rfl | rfl | rfl <;> simp at inside
    · exact inside ▸ portable "r.xml" (by simp)
    · exact inside ▸ portable "nested" (by simp)
    · rcases inside with rfl | rfl
      · exact portable "nested" (by simp)
      · exact portable "r.xml" (by simp)
  have finds : Inventory.find doubled atTop.root "r.xml" = .ok [spot] := by decide
  intro before occasion after split caller artifact deadline outcome waits delivers
  have asks : Asks [.named .xml "r"] .xml "r" caller := by
    fin_cases caller
    rfl
  obtain rfl := artifact_of_waits asks waits
  have member : occasion ∈ showing document := by simp [split]
  simp only [showing, launching, sighting, List.cons_append, List.nil_append, List.mem_cons,
    List.not_mem_nil, or_false] at member
  have answer : outcome = .ok [spot] := by
    rcases member with rfl | rfl | rfl | rfl | rfl <;> simp_all [eq_comm]
  refine ⟨doubled, named, ?_⟩
  rw [answer]
  exact (mapError_eq_ok.mpr finds).symm

theorem completed_showing {document : Path}
    (ends : document.endsWith (Path.ofText "r.xml") = true)
    : Completed (of atTop [.named .xml "r"] (showing document)) 0
        ⟨.of atTop.root .xml "r", spot⟩ := by
  have came : of atTop [.named .xml "r"] (showing document)
      = (launching 0 {} doubled ++ sighting 0 doubled spot document).foldl extend
          (of atTop [.named .xml "r"] [⟨{}, 0, .arrive 0⟩]) :=
    of_append _ _ [_] _
  rw [Completed, came, session_sighting rfl rfl (by decide) ends]
  rfl

-----------------------------------------------------------------------------------------
-- Completed requests
-----------------------------------------------------------------------------------------

/-- Whoever has created a route has seen a document that bears the name of its file, and it is that
file if it lies in the root.
-/
theorem focused_of {occasions : List Occasion} (scanning : Scanning creator jobs occasions)
    (caller : Fin jobs.length) {route : CreatedRoute}
    (completed : Completed (of creator jobs occasions) caller route)
    : ∃ document, Focused creator ((of creator jobs occasions).own caller) route document := by
  have spotted := spotted_of scanning caller
  rw [completed] at spotted
  obtain ⟨searched, document, decides, ends⟩ := spotted
  obtain ⟨⟨former, text, accepted, made, -⟩, answered⟩ :=
    completed.checked (List.getElem?_eq_getElem caller.isLt)
  have proper : FileTree.IsName (Bytes.ofText route.artifact.fileName) := by
    rw [made]
    exact RouteName.isName_of_check accepted
  obtain ⟨tree, named, answer⟩ := searched
  have finds := mapError_eq_ok.mp answer.symm
  have shown := (Path.endsWith_ofText_iff proper).mp ends
  have file := Inventory.fileName?_of_find proper finds (List.mem_singleton_self _)
  refine ⟨document, decides, ⟨answered, tree, named, finds⟩, ⟨shown, file⟩, fun absolute => ?_,
    Path.agrees_iff_parent? shown file⟩
  obtain ⟨-, -, read⟩ := Inventory.find_spec named absolute proper finds (List.mem_singleton_self _)
  exact (Path.parent?_of_components read).1

/-- The file in the root is shown, and the route is created. -/
theorem focused_of_spot
    : Scanning atTop [.named .xml "r"] (showing spot)
      ∧ Completed (of atTop [.named .xml "r"] (showing spot)) 0
          ⟨.of atTop.root .xml "r", spot⟩
      ∧ ∃ document, Focused atTop
          ((of atTop [.named .xml "r"] (showing spot)).own 0)
          ⟨.of atTop.root .xml "r", spot⟩ document :=
  have scanning := scanning_showing spot
  have completed := completed_showing (by decide)
  ⟨scanning, completed, focused_of scanning (0 : Fin 1) completed⟩

/-- A file of the same name in another directory is shown, and the route is created as well. -/
theorem unfocused_nested
    : Scanning atTop [.named .xml "r"] (showing nested)
      ∧ Completed (of atTop [.named .xml "r"] (showing nested)) 0
          ⟨.of atTop.root .xml "r", spot⟩
      ∧ ((of atTop [.named .xml "r"] (showing nested)).own 0).getLast?.map Happening.event
          = some (.looked (some nested))
      ∧ nested.agrees spot = false ∧ doubled.read nested ≠ doubled.read spot := by
  refine ⟨scanning_showing nested, completed_showing (by decide), ?_, by decide, by decide⟩
  rfl

end Record

end RouteDesk
