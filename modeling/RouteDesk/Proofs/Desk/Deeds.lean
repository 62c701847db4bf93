import RouteDesk.Desk.Basic
import RouteDesk.Proofs.FileTree.Sound

/-! What is done at a desk and what happens to its processes, deed by deed. Every process is started
for one errand and runs until its one end, and the active file is the last one that the editor has
accepted.
-/

namespace RouteDesk

namespace Errand

/-- The file that the editor is started for. -/
def shown? : Errand → Option Path
  | .generate _ => none
  | .show path _ => some path

/-- The files that the editor is to be asked for at the end of an errand. -/
def demands (ending : Ending) : Errand → List Path
  | .generate artifact => if ending.succeeded then [artifact.path] else []
  | .show .. => []

end Errand

namespace Desk

-----------------------------------------------------------------------------------------
-- Deeds
-----------------------------------------------------------------------------------------

/-- What is done at a desk, and what happens to its processes. -/
inductive Deed where
  | dispatch (artifact : Artifact)
  /-- A file is to be opened that nobody has generated. -/
  | present (path : Path)
  | finish (process : Nat) (ending : Ending) (errors : Bytes)

namespace Deed

/-- The file that is presented. -/
def path? : Deed → Option Path
  | .present path => some path
  | _ => none

/-- The end that a deed brings about, which is that of a process that runs. -/
def ends (desk : Desk) : Deed → List (Nat × Ending)
  | .finish process ending _ =>
    if (desk.running.lookup process).isSome then [(process, ending)] else []
  | _ => []

end Deed

/-- A request to the editor. -/
structure Request where
  /-- The generation that has succeeded, if one is the reason. -/
  cause : Option Nat
  path : Path
  /-- The process that the editor runs in, or why it was not started. -/
  outcome : Except StartError Nat

/-- The run of the editor that a request has led to. -/
def Request.run? (request : Request) : Option (Errand × Nat) :=
  match request.outcome with
  | .ok process => some (.show request.path request.cause.isSome, process)
  | .error _ => none

section

variable (desk : Desk) (tree : FileTree)

/-- The desk after a deed, and what is logged. -/
def perform : Deed → Desk × Log
  | .dispatch artifact =>
    let (next, _, log) := desk.dispatch tree artifact
    (next, log)
  | .present path =>
    match desk.present tree path false with
    | .ok next => (next, [])
    | .error _ => (desk, [])
  | .finish process ending errors => desk.ended tree process ending errors

/-- A request for a file, as the editor answers it. -/
def request (cause : Option Nat) (path : Path) : Request :=
  { cause, path
    outcome := (desk.present tree path cause.isSome).map fun _ => desk.launches.length }

/-- The requests that a deed makes. -/
def requests : Deed → List Request
  | .dispatch _ => []
  | .present path => [desk.request tree none path]
  | .finish process ending _ =>
    match desk.running.lookup process with
    | some errand => (errand.demands ending).map (desk.request tree (some process))
    | none => []

/-- The desk with other programs. -/
def equipped (toolbox : Toolbox) : Desk :=
  { desk with toolbox }

/-- The desk after a program was started. -/
def launched (errand : Errand) (launch : Launch) : Desk :=
  { desk with
    running := desk.running ++ [(desk.launches.length, errand)]
    launches := desk.launches ++ [launch] }

/-- The desk after the end of a process, before anything else is started. -/
def finished (process : Nat) (ending : Ending) (errand : Errand) : Desk :=
  { desk with
    active := if ending.succeeded then errand.shown?.or desk.active else desk.active
    running := desk.running.filter (·.1 != process)
    endings := desk.endings ++ [(process, ending)] }

/-- What a deed does to a desk, what is logged, what is started, and what the editor is asked for.
-/
inductive Moves : Deed → Desk → Log → List Errand → List Request → Prop
  | dispatches {artifact : Artifact} {program : Path} {log : Log}
    (located : desk.toolbox.locate tree desk.generator.tool = some program)
    : Moves (.dispatch artifact)
        (desk.launched (.generate artifact) (desk.generator.launch program artifact)) log
        [.generate artifact] []
  | undispatched {artifact : Artifact} : Moves (.dispatch artifact) desk [] [] []
  | presents {path : Path}
    : Moves (.present path) (desk.launched (.show path false) (desk.showing tree path)) []
        [.show path false] [⟨none, path, .ok desk.launches.length⟩]
  | unpresented {path : Path} {reason : StartError}
    : Moves (.present path) desk [] [] [⟨none, path, .error reason⟩]
  /-- No such process runs. -/
  | idles {process : Nat} {ending : Ending} {errors : Bytes}
    (unknown : desk.running.lookup process = none)
    : Moves (.finish process ending errors) desk [] [] []
  /-- A generation fails, or the editor ends in whatever way. -/
  | ends {process : Nat} {ending : Ending} {errors : Bytes} {errand : Errand} {log : Log}
    (runs : desk.running.lookup process = some errand) (quiet : errand.demands ending = [])
    : Moves (.finish process ending errors) (desk.finished process ending errand) log [] []
  | forwards {process : Nat} {ending : Ending} {errors : Bytes} {artifact : Artifact}
    (runs : desk.running.lookup process = some (.generate artifact))
    (succeeds : ending.succeeded = true)
    : Moves (.finish process ending errors)
        ((desk.finished process ending (.generate artifact)).launched (.show artifact.path true)
          (desk.showing tree artifact.path))
        [] [.show artifact.path true] [⟨some process, artifact.path, .ok desk.launches.length⟩]
  | unforwarded {process : Nat} {ending : Ending} {errors : Bytes} {artifact : Artifact}
    {reason : StartError}
    (runs : desk.running.lookup process = some (.generate artifact))
    (succeeds : ending.succeeded = true)
    : Moves (.finish process ending errors) (desk.finished process ending (.generate artifact))
        (unopened artifact.path (.notStarted reason)) []
        [⟨some process, artifact.path, .error reason⟩]

end

variable {desk : Desk} {tree : FileTree}

theorem begin_eq (errand : Errand) (launch : Launch)
    : desk.begin tree errand launch
      = (desk.toolbox.start tree launch).map fun _ => desk.launched errand launch := by
  unfold begin
  cases desk.toolbox.start tree launch <;> rfl

theorem present_eq (path : Path) (generated : Bool)
    : desk.present tree path generated
      = (desk.toolbox.start tree (desk.showing tree path)).map fun _ =>
          desk.launched (.show path generated) (desk.showing tree path) :=
  begin_eq _ _

/-- The editor is started as before the end of a process. -/
theorem present_finished (process : Nat) (ending : Ending) (errand : Errand) (path : Path)
    (generated : Bool)
    : (desk.finished process ending errand).present tree path generated
      = (desk.toolbox.start tree (desk.showing tree path)).map fun _ =>
          (desk.finished process ending errand).launched (.show path generated)
            (desk.showing tree path) :=
  present_eq path generated

theorem request_eq (cause : Option Nat) (path : Path)
    : desk.request tree cause path
      = ⟨cause, path, (desk.toolbox.start tree (desk.showing tree path)).map fun _ =>
          desk.launches.length⟩ := by
  rw [request, present_eq]
  cases desk.toolbox.start tree (desk.showing tree path) <;> rfl

/-- A dispatch that fails changes nothing, and any other one starts the generator. -/
theorem dispatch_spec {artifact : Artifact} {next : Desk} {outcome : Except GeneratorError Unit}
    {log : Log} (dispatches : desk.dispatch tree artifact = (next, outcome, log))
    : match outcome with
      | .error _ => next = desk ∧ log = []
      | .ok () =>
          ∃ program, desk.toolbox.locate tree desk.generator.tool = some program
            ∧ next = desk.launched (.generate artifact)
                (desk.generator.launch program artifact) := by
  unfold dispatch at dispatches
  split at dispatches
  case h_1 =>
    cases dispatches
    exact ⟨rfl, rfl⟩
  case h_2 program located =>
    rw [begin_eq] at dispatches
    cases started : desk.toolbox.start tree (desk.generator.launch program artifact) with
    | error reason =>
        rw [started] at dispatches
        cases dispatches
        exact ⟨rfl, rfl⟩
    | ok =>
        rw [started] at dispatches
        cases dispatches
        exact ⟨program, located, rfl⟩

theorem moves_dispatch (artifact : Artifact)
    : ∃ started, Moves desk tree (.dispatch artifact) (desk.dispatch tree artifact).1
        (desk.dispatch tree artifact).2.2 started [] := by
  rcases dispatches : desk.dispatch tree artifact with ⟨next, reason | _, log⟩
  · obtain ⟨rfl, rfl⟩ := dispatch_spec dispatches
    exact ⟨_, .undispatched⟩
  · obtain ⟨program, located, rfl⟩ := dispatch_spec dispatches
    exact ⟨_, .dispatches located⟩

theorem moves_present (path : Path)
    : ∃ started, Moves desk tree (.present path) (desk.perform tree (.present path)).1
        (desk.perform tree (.present path)).2 started [desk.request tree none path] := by
  simp only [perform, present_eq, request_eq]
  cases desk.toolbox.start tree (desk.showing tree path) with
  | error reason => exact ⟨_, .unpresented⟩
  | ok => exact ⟨_, .presents⟩

theorem finished_generate (process : Nat) (ending : Ending) (artifact : Artifact)
    : desk.finished process ending (.generate artifact)
      = { desk with
          running := desk.running.filter (·.1 != process)
          endings := desk.endings ++ [(process, ending)] } := by
  simp [finished, Errand.shown?]

/-- A file is active once the editor has succeeded, whatever the file was shown for. -/
theorem concluded_show (process : Nat) (ending : Ending) (errors : Bytes) (path : Path)
    (generated : Bool)
    : (({ desk with
          running := desk.running.filter (·.1 != process)
          endings := desk.endings ++ [(process, ending)] } : Desk).concluded tree ending errors
        (.show path generated)).1
      = desk.finished process ending (.show path generated) := by
  cases succeeds : ending.succeeded <;>
    simp [concluded, verdict, finished, Errand.shown?, succeeds]

/-- The end of a process, by cases of its errand and of its success. -/
theorem moves_ended (process : Nat) (ending : Ending) (errors : Bytes)
    : ∃ started, Moves desk tree (.finish process ending errors)
        (desk.ended tree process ending errors).1 (desk.ended tree process ending errors).2
        started (desk.requests tree (.finish process ending errors)) := by
  cases runs : desk.running.lookup process with
  | none =>
      simp only [ended, requests, runs]
      exact ⟨_, .idles runs⟩
  | some errand =>
      simp only [ended, requests, runs]
      cases errand with
      | generate artifact =>
          rw [← finished_generate process ending artifact]
          cases succeeds : ending.succeeded with
          | false =>
              have quiet : (Errand.generate artifact).demands ending = [] := by
                simp [Errand.demands, succeeds]
              rw [quiet]
              simp only [concluded, succeeds]
              exact ⟨_, .ends runs quiet⟩
          | true =>
              simp only [concluded, succeeds, Errand.demands, if_true, List.map, present_finished,
                request_eq]
              cases desk.toolbox.start tree (desk.showing tree artifact.path) with
              | error reason => exact ⟨_, .unforwarded runs succeeds⟩
              | ok => exact ⟨_, .forwards runs succeeds⟩
      | «show» path generated =>
          rw [concluded_show]
          exact ⟨_, .ends runs rfl⟩

/-- A deed is one of the moves. -/
theorem moves_perform (desk : Desk) (tree : FileTree) (deed : Deed)
    : ∃ started, Moves desk tree deed (desk.perform tree deed).1 (desk.perform tree deed).2
        started (desk.requests tree deed) := by
  cases deed with
  | dispatch artifact => exact moves_dispatch artifact
  | present path => exact moves_present path
  | finish process ending errors => exact moves_ended process ending errors

-----------------------------------------------------------------------------------------
-- Processes
-----------------------------------------------------------------------------------------

/-- How a process is started for an errand. -/
inductive Starts (generator : Generator) (editor : Path) : Errand → Launch → Prop
  | generates (program : Path) (artifact : Artifact)
    : Starts generator editor (.generate artifact) (generator.launch program artifact)
  | shows (directory path : Path) (generated : Bool)
    : Starts generator editor (.show path generated)
        { program := editor, directory, arguments := [path.bytes] }

/-- The files that the editor has accepted, the last one last. -/
def accepted (errands : List Errand) (endings : List (Nat × Ending)) : List Path :=
  endings.filterMap fun (process, ending) =>
    if ending.succeeded then errands[process]?.bind Errand.shown? else none

/-- Every process was started for its errand and runs until its one end, and the active file is the
last one that the editor has accepted.
-/
structure Registers (generator : Generator) (editor : Path) (errands : List Errand) (desk : Desk)
    : Prop where
  staff : desk.generator = generator ∧ desk.editor = editor
  starts : List.Forall₂ (Starts generator editor) errands desk.launches
  running (process : Nat)
    : desk.running.lookup process
      = if process ∈ desk.endings.map Prod.fst then none else errands[process]?
  once : (desk.endings.map Prod.fst).Nodup
  known {process : Nat} (ends : process ∈ desk.endings.map Prod.fst) : process < errands.length
  active : desk.active = (accepted errands desk.endings).getLast?

/-- The errands of the processes that were started between two desks. -/
def fresh (before after : Desk) : List Errand :=
  (after.running.filter (before.launches.length ≤ ·.1)).map Prod.snd

section

variable {generator : Generator} {editor : Path} {errands : List Errand} {errand : Errand}
  {process : Nat} {ending : Ending} {endings : List (Nat × Ending)}

theorem lookup_launched (errand : Errand) (launch : Launch) (process : Nat)
    : (desk.launched errand launch).running.lookup process
      = (desk.running.lookup process).or
          (if process = desk.launches.length then some errand else none) := by
  rw [launched, List.lookup_append]
  by_cases same : process = desk.launches.length
  · simp [same]
  · simp [lookup_cons_of_ne same, same]

theorem lookup_finished (process : Nat) (ending : Ending) (errand : Errand) (other : Nat)
    : (desk.finished process ending errand).running.lookup other
      = if other = process then none else desk.running.lookup other := by
  rw [finished, lookup_filter (· != process)]
  by_cases same : other = process <;> simp [same]

theorem names_finished (process : Nat) (ending : Ending) (errand : Errand)
    : (desk.finished process ending errand).endings.map Prod.fst
      = desk.endings.map Prod.fst ++ [process] := by
  simp [finished]

theorem getElem?_snoc (process : Nat)
    : (errands ++ [errand])[process]?
      = errands[process]?.or (if process = errands.length then some errand else none) := by
  rcases Nat.lt_trichotomy process errands.length with before | rfl | after
  · rw [List.getElem?_append_left before, if_neg (Nat.ne_of_lt before), Option.or_none]
  · simp
  · rw [if_neg (Nat.ne_of_gt after), Option.or_none,
      List.getElem?_eq_none (Nat.le_of_lt after), List.getElem?_eq_none]
    simpa using after

/-- A process that starts has not ended yet. -/
theorem accepted_snoc_errand
    (known : ∀ {process}, process ∈ endings.map Prod.fst → process < errands.length)
    : accepted (errands ++ [errand]) endings = accepted errands endings := by
  apply List.filterMap_congr
  rintro ⟨process, ending⟩ ends
  dsimp only
  rw [List.getElem?_append_left (known (List.mem_map_of_mem ends))]

theorem accepted_snoc_ending (runs : errands[process]? = some errand)
    : accepted errands (endings ++ [(process, ending)])
      = accepted errands endings ++ if ending.succeeded then errand.shown?.toList else [] := by
  rw [accepted, List.filterMap_append, ← accepted]
  cases succeeds : ending.succeeded <;> cases shows : errand.shown? <;>
    simp [succeeds, shows, runs]

namespace Registers

theorem length_eq (registers : Registers generator editor errands desk)
    : errands.length = desk.launches.length :=
  registers.starts.length_eq

theorem of_running (registers : Registers generator editor errands desk)
    (runs : desk.running.lookup process = some errand)
    : errands[process]? = some errand ∧ process ∉ desk.endings.map Prod.fst := by
  rw [registers.running] at runs
  split at runs
  case isTrue => cases runs
  case isFalse open' => exact ⟨runs, open'⟩

theorem lt_of_running (registers : Registers generator editor errands desk)
    (runs : desk.running.lookup process = some errand)
    : process < errands.length :=
  (List.getElem?_eq_some_iff.mp (registers.of_running runs).1).1

theorem equipped (registers : Registers generator editor errands desk) (toolbox : Toolbox)
    : Registers generator editor errands (desk.equipped toolbox) :=
  ⟨registers.staff, registers.starts, registers.running, registers.once, registers.known,
    registers.active⟩

theorem launched (registers : Registers generator editor errands desk) {launch : Launch}
    (starts : Starts generator editor errand launch)
    : Registers generator editor (errands ++ [errand]) (desk.launched errand launch) where
  staff := registers.staff
  starts := List.rel_append registers.starts (.cons starts .nil)
  running process := by
    rw [lookup_launched, registers.running, ← registers.length_eq, getElem?_snoc]
    change _ = if process ∈ desk.endings.map Prod.fst then none else _
    by_cases ends : process ∈ desk.endings.map Prod.fst
    · have different : process ≠ errands.length := Nat.ne_of_lt (registers.known ends)
      simp only [if_pos ends, if_neg different, Option.or_none]
    · simp only [if_neg ends]
  once := registers.once
  known ends := by
    have bound := registers.known ends
    simp only [List.length_append, List.length_singleton]
    omega
  active := registers.active.trans (by rw [← accepted_snoc_errand registers.known]; rfl)

theorem finished (registers : Registers generator editor errands desk)
    (runs : desk.running.lookup process = some errand) (ending : Ending)
    : Registers generator editor errands (desk.finished process ending errand) where
  staff := registers.staff
  starts := registers.starts
  running other := by
    rw [lookup_finished, registers.running, names_finished]
    by_cases same : other = process
    · simp [same]
    · simp only [same, if_false, List.mem_append, List.mem_singleton, or_false]
  once := by
    have open' := (registers.of_running runs).2
    rw [names_finished, ← List.concat_eq_append]
    exact registers.once.concat open'
  known ends := by
    rw [names_finished] at ends
    rcases List.mem_append.mp ends with former | last
    · exact registers.known former
    · obtain rfl := List.mem_singleton.mp last
      exact registers.lt_of_running runs
  active := by
    change (if ending.succeeded then errand.shown?.or desk.active else desk.active)
      = (accepted errands (desk.endings ++ [(process, ending)])).getLast?
    rw [accepted_snoc_ending (registers.of_running runs).1, registers.active]
    cases ending.succeeded <;> cases errand.shown? <;> simp

/-- A deed keeps the register, which grows by what it starts. -/
theorem moves (registers : Registers generator editor errands desk) {deed : Deed} {next : Desk}
    {log : Log} {started : List Errand} {requests : List Request}
    (moves : Moves desk tree deed next log started requests)
    : Registers generator editor (errands ++ started) next := by
  obtain ⟨rfl, rfl⟩ := registers.staff
  cases moves with
  | dispatches => exact registers.launched (.generates ..)
  | presents => exact registers.launched (.shows ..)
  | ends runs => simpa using registers.finished runs _
  | forwards runs => exact (registers.finished runs _).launched (.shows ..)
  | unforwarded runs => simpa using registers.finished runs _
  | _ => simpa using registers

/-- To open a file and to wait is to present it and to let the process end. -/
theorem openWith_eq (registers : Registers generator editor errands desk) (tree : FileTree)
    (path : Path) (ending : Ending)
    : ((desk.openWith tree path ending).1, (desk.openWith tree path ending).2.2)
      = (desk.perform tree (.present path)).1.perform tree
          (.finish desk.launches.length ending []) := by
  simp only [openWith, perform, present_eq]
  cases desk.toolbox.start tree (desk.showing tree path) with
  | ok => rfl
  | error reason =>
      have unstarted : errands[desk.launches.length]? = none := by simp [registers.length_eq]
      have unknown : desk.running.lookup desk.launches.length = none := by
        rw [registers.running, unstarted, ite_self]
      simp only [Except.map, ended, unknown]

/-- Nothing that runs is new. -/
theorem former (registers : Registers generator editor errands desk)
    : desk.running.filter (desk.launches.length ≤ ·.1) = [] := by
  apply List.filter_eq_nil_iff.mpr
  rintro ⟨process, other⟩ member
  have found : (desk.running.lookup process).isSome :=
    List.lookup_isSome_iff.mpr ⟨_, member, beq_self_eq_true process⟩
  obtain ⟨known, runs⟩ := Option.isSome_iff_exists.mp found
  have bound := registers.lt_of_running runs
  rw [registers.length_eq] at bound
  simpa using bound

/-- What a deed starts is all that is new. -/
theorem fresh_eq (registers : Registers generator editor errands desk) {deed : Deed} {next : Desk}
    {log : Log} {started : List Errand} {requests : List Request}
    (moves : Moves desk tree deed next log started requests)
    : fresh desk next = started := by
  have launched {desk : Desk} (registers : Registers generator editor errands desk)
      (errand : Errand) (launch : Launch)
      : fresh desk (desk.launched errand launch) = [errand] := by
    simp [fresh, Desk.launched, registers.former]
  have still {desk : Desk} (registers : Registers generator editor errands desk)
      : fresh desk desk = [] := by
    simp [fresh, registers.former]
  cases moves with
  | dispatches => exact launched registers ..
  | presents => exact launched registers ..
  | ends runs => exact still (registers.finished runs _)
  | forwards runs => exact launched (registers.finished runs _) ..
  | unforwarded runs => exact still (registers.finished runs _)
  | _ => exact still registers

end Registers

end

end Desk

end RouteDesk
