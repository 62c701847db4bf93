import RouteDesk.Proofs.Desk.Deeds

/-! What becomes of a desk at which artifacts are dispatched, files are presented and processes end,
in any order and in whatever way. A journal takes down what every process was started for and what
the editor was asked for: the file of each generation that has succeeded, once, and no other one.
-/

namespace RouteDesk

namespace Desk

variable {desk : Desk} {tree : FileTree}

-----------------------------------------------------------------------------------------
-- Requests
-----------------------------------------------------------------------------------------

/-- The files that the editor was asked for because of a process. -/
def prompted (requests : List Request) (process : Nat) : List Path :=
  (requests.filter (·.cause == some process)).map (·.path)

/-- The files that the editor is to be asked for because of a process. -/
def demanded (errands : List Errand) (endings : List (Nat × Ending)) (process : Nat)
    : List Path :=
  match errands[process]?, endings.lookup process with
  | some errand, some ending => errand.demands ending
  | _, _ => []

/-- The files that the editor was asked for without a generation. -/
def direct (requests : List Request) : List Path :=
  (requests.filter (·.cause.isNone)).map (·.path)

section

variable {generator : Generator} {editor : Path} {errands started : List Errand}
  {requests : List Request} {deed : Deed} {next : Desk} {log : Log}

theorem prompted_append (first second : List Request) (process : Nat)
    : prompted (first ++ second) process = prompted first process ++ prompted second process := by
  simp [prompted]

theorem direct_append (first second : List Request)
    : direct (first ++ second) = direct first ++ direct second := by
  simp [direct]

theorem prompted_singleton (process : Nat) (path : Path) (outcome : Except StartError Nat)
    (other : Nat)
    : prompted [⟨some process, path, outcome⟩] other = if other = process then [path] else [] := by
  by_cases same : other = process
  · simp [prompted, same]
  · simp [prompted, same, Ne.symm same]

/-- A process that starts has not ended, and nothing is demanded for it. -/
theorem demanded_append {endings : List (Nat × Ending)}
    (known : ∀ {process}, process ∈ endings.map Prod.fst → process < errands.length)
    (started : List Errand) (process : Nat)
    : demanded (errands ++ started) endings process = demanded errands endings process := by
  unfold demanded
  cases ends : endings.lookup process with
  | none => simp
  | some ending =>
      have found : (endings.lookup process).isSome := by simp [ends]
      obtain ⟨⟨other, _⟩, member, same⟩ := List.lookup_isSome_iff.mp found
      obtain rfl := beq_iff_eq.mp same
      rw [List.getElem?_append_left (known (List.mem_map_of_mem member))]

/-- The end of a process demands something for that process alone. -/
theorem Registers.demanded_finished (registers : Registers generator editor errands desk)
    {process : Nat} {errand : Errand} (runs : desk.running.lookup process = some errand)
    (ending : Ending) (other : Nat)
    : demanded errands (desk.finished process ending errand).endings other
      = demanded errands desk.endings other
        ++ if other = process then errand.demands ending else [] := by
  obtain ⟨started, open'⟩ := registers.of_running runs
  have still : desk.endings.lookup process = none := by
    apply List.lookup_eq_none_iff.mpr
    rintro ⟨former, _⟩ member
    exact bne_iff_ne.mpr fun same => open' (same ▸ List.mem_map_of_mem member)
  unfold demanded Desk.finished
  by_cases same : other = process
  · subst same
    simp [List.lookup_append, started, still]
  · simp [List.lookup_append, lookup_cons_of_ne same, same]

/-- The editor is asked for what a deed demands. -/
theorem Registers.demanded_moves (registers : Registers generator editor errands desk)
    (moves : Moves desk tree deed next log started requests) (process : Nat)
    : demanded (errands ++ started) next.endings process
      = demanded errands desk.endings process ++ prompted requests process := by
  cases moves with
  | dispatches => exact (demanded_append registers.known _ process).trans (by simp [prompted])
  | presents => exact (demanded_append registers.known _ process).trans (by simp [prompted])
  | ends runs quiet => simp [registers.demanded_finished runs, quiet, prompted]
  | forwards runs succeeds =>
      refine (demanded_append (registers.finished runs _).known _ process).trans ?_
      rw [registers.demanded_finished runs, prompted_singleton, Errand.demands, if_pos succeeds]
  | unforwarded runs succeeds =>
      rw [List.append_nil, registers.demanded_finished runs, prompted_singleton, Errand.demands,
        if_pos succeeds]
  | _ => simp [prompted]

/-- Only what is presented is asked for without a generation. -/
theorem Moves.direct_eq (moves : Moves desk tree deed next log started requests)
    : direct requests = deed.path?.toList := by
  cases moves <;> rfl

/-- The editor runs for the requests that it was started for, and for nothing else. -/
theorem Moves.runs_eq (moves : Moves desk tree deed next log started requests)
    : requests.filterMap Request.run?
      = (started.zipIdx desk.launches.length).filter (·.1.shown?.isSome) := by
  cases moves <;> rfl

/-- A file that was generated and for which the editor was not started is logged. -/
theorem Moves.unopened_subset (moves : Moves desk tree deed next log started requests)
    {request : Request} (member : request ∈ requests) {reason : StartError}
    (fails : request.outcome = .error reason) (generated : request.cause ≠ none)
    : unopened request.path (.notStarted reason) ⊆ log := by
  cases moves with
  | unforwarded runs succeeds =>
      obtain rfl := List.mem_singleton.mp member
      obtain rfl := Except.error.inj fails
      exact List.Subset.refl _
  | unpresented =>
      obtain rfl := List.mem_singleton.mp member
      exact absurd rfl generated
  | presents | forwards =>
      obtain rfl := List.mem_singleton.mp member
      cases fails
  | _ => cases member

theorem Moves.endings_eq (moves : Moves desk tree deed next log started requests)
    : next.endings = desk.endings ++ deed.ends desk := by
  cases moves with
  | idles unknown => rw [Deed.ends, unknown, if_neg (by simp), List.append_nil]
  | ends runs | forwards runs | unforwarded runs => rw [Deed.ends, runs]; rfl
  | _ => exact (List.append_nil _).symm

end

-----------------------------------------------------------------------------------------
-- Journals
-----------------------------------------------------------------------------------------

/-- A deed, with the files and the programs that there are. -/
structure Act where
  tree : FileTree
  toolbox : Toolbox
  deed : Deed

/-- A desk, and what has come of everything that was done at it. -/
structure Journal where
  desk : Desk
  log : Log := []
  /-- What each process was started for. -/
  errands : List Errand := []
  requests : List Request := []

namespace Journal

/-- The journal after an act. -/
def extend (journal : Journal) (act : Act) : Journal :=
  let desk := journal.desk.equipped act.toolbox
  let (next, log) := desk.perform act.tree act.deed
  { desk := next
    log := journal.log ++ log
    errands := journal.errands ++ desk.fresh next
    requests := journal.requests ++ desk.requests act.tree act.deed }

/-- The journal of a desk from the beginning on. -/
def of (generator : Generator) (editor : Path) (acts : List Act) : Journal :=
  acts.foldl extend { desk := { toolbox := {}, generator, editor } }

/-- The editor was asked for the files of the generations that have succeeded, once for each, and
for those that were presented. It runs for these requests alone, and what it could not be started
for is logged.
-/
structure Answers (acts : List Act) (journal : Journal) : Prop where
  prompted (process : Nat)
    : prompted journal.requests process
      = demanded journal.errands journal.desk.endings process
  direct : direct journal.requests = acts.filterMap (·.deed.path?)
  runs
    : journal.requests.filterMap Request.run?
      = journal.errands.zipIdx.filter (·.1.shown?.isSome)
  unopened {request : Request} (member : request ∈ journal.requests) {reason : StartError}
    (fails : request.outcome = .error reason) (generated : request.cause ≠ none)
    : unopened request.path (.notStarted reason) ⊆ journal.log

/-- What holds of a journal throughout. -/
structure Keeps (generator : Generator) (editor : Path) (acts : List Act) (journal : Journal)
    : Prop where
  registers : Registers generator editor journal.errands journal.desk
  answers : Answers acts journal

variable {generator : Generator} {editor : Path} {acts : List Act} {journal : Journal}

/-- An act keeps what holds of a journal. -/
theorem Keeps.extend (keeps : Keeps generator editor acts journal) (act : Act)
    : Keeps generator editor (acts ++ [act]) (journal.extend act) := by
  have registers := keeps.registers.equipped act.toolbox
  obtain ⟨started, moves⟩ :=
    moves_perform (journal.desk.equipped act.toolbox) act.tree act.deed
  have fresh := registers.fresh_eq moves
  have grown := registers.moves moves
  have demanded := registers.demanded_moves moves
  simp only [Journal.extend, fresh]
  refine ⟨grown, ?_, ?_, ?_, ?_⟩
  · intro process
    rw [prompted_append, keeps.answers.prompted, demanded]
    rfl
  · rw [direct_append, keeps.answers.direct, moves.direct_eq, List.filterMap_append]
    cases path : act.deed.path? <;> simp [path]
  · rw [List.filterMap_append, keeps.answers.runs, moves.runs_eq, List.zipIdx_append,
      List.filter_append, Nat.zero_add, registers.length_eq]
  · intro request member reason fails generated
    rcases List.mem_append.mp member with former | new
    · exact List.Subset.trans (keeps.answers.unopened former fails generated)
        (List.subset_append_left _ _)
    · exact List.Subset.trans (moves.unopened_subset new fails generated)
        (List.subset_append_right _ _)

theorem of_snoc (generator : Generator) (editor : Path) (acts : List Act) (act : Act)
    : of generator editor (acts ++ [act]) = (of generator editor acts).extend act :=
  List.foldl_concat ..

theorem of_append (generator : Generator) (editor : Path) (acts later : List Act)
    : of generator editor (acts ++ later) = later.foldl extend (of generator editor acts) :=
  List.foldl_append ..

/-- Nothing has come of a desk at which nothing was done; by induction on the acts. -/
theorem keeps_of (generator : Generator) (editor : Path) (acts : List Act)
    : Keeps generator editor acts (of generator editor acts) := by
  induction acts using List.reverseRecOn with
  | nil =>
      refine ⟨⟨⟨rfl, rfl⟩, .nil, ?_, .nil, nofun, rfl⟩, ⟨?_, rfl, rfl, nofun⟩⟩
      · intro process
        rfl
      · intro process
        rfl
  | append_singleton acts act ih =>
      rw [of_snoc]
      exact ih.extend act

/-- Later acts take no errand back, by induction on them. -/
theorem prefix_errands (later : List Act) (journal : Journal)
    : journal.errands <+: (later.foldl extend journal).errands := by
  induction later generalizing journal with
  | nil => exact List.prefix_rfl
  | cons act rest ih =>
      have grown : journal.errands <+: (journal.extend act).errands := List.prefix_append _ _
      exact grown.trans (ih (journal.extend act))

/-- The errand of a dispatch is that of the process which it starts. -/
theorem errands_of_dispatch (keeps : Keeps generator editor acts journal) {tree : FileTree}
    {toolbox : Toolbox} {artifact : Artifact} {next : Desk} {log : Log}
    (dispatches : (journal.desk.equipped toolbox).dispatch tree artifact = (next, .ok (), log))
    : (journal.extend ⟨tree, toolbox, .dispatch artifact⟩).errands
      = journal.errands ++ [.generate artifact] := by
  obtain ⟨program, located, rfl⟩ := dispatch_spec dispatches
  have moves : Moves (journal.desk.equipped toolbox) tree (.dispatch artifact) _ log
      [.generate artifact] [] :=
    .dispatches located
  have fresh := (keeps.registers.equipped toolbox).fresh_eq moves
  simp only [extend, perform, dispatches, fresh]

/-- Because of a generation, the editor is asked for the file once if it has succeeded. -/
theorem Keeps.prompted_eq (keeps : Keeps generator editor acts journal) {process : Nat}
    {artifact : Artifact} (started : journal.errands[process]? = some (.generate artifact))
    : prompted journal.requests process
      = if (journal.desk.endings.lookup process).any Ending.succeeded then [artifact.path]
        else [] := by
  rw [keeps.answers.prompted, demanded, started]
  cases journal.desk.endings.lookup process with
  | none => rfl
  | some ending => rfl

/-- What comes of everything that is done at a desk. -/
structure Accounts (generator : Generator) (editor : Path) (acts : List Act) : Prop where
  keeps : Keeps generator editor acts (of generator editor acts)
  /-- The processes that run end as the acts have it. -/
  ends (act : Act)
    : (of generator editor (acts ++ [act])).desk.endings
      = (of generator editor acts).desk.endings ++ act.deed.ends (of generator editor acts).desk
  /-- A dispatch that fails starts nothing. -/
  undispatched {tree : FileTree} {toolbox : Toolbox} {artifact : Artifact} {next : Desk}
    {reason : GeneratorError} {log : Log}
    (fails : ((of generator editor acts).desk.equipped toolbox).dispatch tree artifact
      = (next, .error reason, log))
    : next = (of generator editor acts).desk.equipped toolbox
  /-- Any other dispatch starts the generator. Whatever is done later, the editor is asked for the
  file because of that process once if it has succeeded, and not at all otherwise.
  -/
  dispatched {tree : FileTree} {toolbox : Toolbox} {artifact : Artifact} {next : Desk} {log : Log}
    (starts : ((of generator editor acts).desk.equipped toolbox).dispatch tree artifact
      = (next, .ok (), log))
    : (∃ program, toolbox.locate tree generator.tool = some program
        ∧ next.launches
          = (of generator editor acts).desk.launches ++ [generator.launch program artifact])
      ∧ ∀ later : List Act,
          let process := (of generator editor acts).desk.launches.length
          let whole := of generator editor (acts ++ ⟨tree, toolbox, .dispatch artifact⟩ :: later)
          prompted whole.requests process
            = if (whole.desk.endings.lookup process).any Ending.succeeded then [artifact.path]
              else []

/-- Whatever is done at a desk, in any order and with whatever outcome: the editor is asked for the
files of the generations that have succeeded, and the last file that it has accepted is active.
-/
theorem accounts_of (generator : Generator) (editor : Path) (acts : List Act)
    : Accounts generator editor acts := by
  have keeps := keeps_of generator editor acts
  refine ⟨keeps, ?ends, ?undispatched, ?dispatched⟩
  case ends =>
    intro act
    obtain ⟨started, moves⟩ :=
      moves_perform ((of generator editor acts).desk.equipped act.toolbox) act.tree act.deed
    rw [of_snoc]
    exact moves.endings_eq
  case undispatched =>
    intro tree toolbox artifact next reason log fails
    exact (dispatch_spec fails).1
  case dispatched =>
    intro tree toolbox artifact next log starts
    have errands := errands_of_dispatch keeps starts
    have staff := (keeps.registers.equipped toolbox).staff.1
    obtain ⟨program, located, rfl⟩ := dispatch_spec starts
    rw [staff] at located ⊢
    refine ⟨⟨program, located, rfl⟩, ?_⟩
    intro later
    apply (keeps_of ..).prompted_eq
    obtain ⟨rest, grown⟩ :=
      prefix_errands later ((of generator editor acts).extend ⟨tree, toolbox, .dispatch artifact⟩)
    rw [of_append, List.foldl_cons, ← grown, errands, ← keeps.registers.length_eq]
    simp

end Journal

end Desk

end RouteDesk
