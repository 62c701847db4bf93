import RouteDesk.Desk.Clock
import RouteDesk.Proofs.Inventory.Plain

/-! What becomes of a desk that is used for one artifact. Its generator is started, and then its
editor if the generator has succeeded; the artifact is active only once the editor has succeeded,
too. Whatever programs do to the tree, the workspace finds no other path than that of the artifact.
-/

namespace RouteDesk

open FileTree (IsName)

-----------------------------------------------------------------------------------------
-- Processes
-----------------------------------------------------------------------------------------

namespace Desk

section

variable (toolbox : Toolbox) (generator : Generator) (editor : Path) (artifact : Artifact)

/-- The start of the generator for an artifact, by whatever program has the name of its tool. -/
def Generates (launch : Launch) : Prop :=
  ∃ tree program, toolbox.locate tree generator.tool = some program
    ∧ launch = generator.launch program artifact

/-- The start of the editor for an artifact. -/
def Shows (launch : Launch) : Prop :=
  ∃ directory, launch = { program := editor, directory, arguments := [artifact.path.bytes] }

/-- What has become of a desk since its generator was started for an artifact. -/
inductive Course : Desk → Prop
  | generating {first : Launch} (generates : Generates toolbox generator artifact first)
    : Course { toolbox, generator, editor
               running := [(0, .generate artifact)]
               launches := [first] }
  /-- The generator has failed, or the editor could not be started. -/
  | stopped {first : Launch} {ending : Ending}
    (generates : Generates toolbox generator artifact first)
    : Course { toolbox, generator, editor, launches := [first], endings := [(0, ending)] }
  | showing {first second : Launch} {ending : Ending}
    (generates : Generates toolbox generator artifact first) (shows : Shows editor artifact second)
    (succeeds : ending.succeeded = true)
    : Course { toolbox, generator, editor
               running := [(1, .show artifact.path true)]
               launches := [first, second]
               endings := [(0, ending)] }
  /-- The editor has failed. -/
  | refused {first second : Launch} {ending ending' : Ending}
    (generates : Generates toolbox generator artifact first) (shows : Shows editor artifact second)
    : Course { toolbox, generator, editor
               launches := [first, second]
               endings := [(0, ending), (1, ending')] }
  | shown {first second : Launch} {ending ending' : Ending}
    (generates : Generates toolbox generator artifact first) (shows : Shows editor artifact second)
    (succeeds : ending.succeeded = true) (succeeds' : ending'.succeeded = true)
    : Course { toolbox, generator, editor
               active := some artifact.path
               launches := [first, second]
               endings := [(0, ending), (1, ending')] }

end

variable {toolbox : Toolbox} {generator : Generator} {editor : Path} {artifact : Artifact}
  {desk : Desk}

/-- The end of a process leaves a desk on its course, by cases of how far it has come. -/
theorem Course.ended (course : Course toolbox generator editor artifact desk) (tree : FileTree)
    (process : Nat) (ending : Ending) (errors : Bytes)
    : Course toolbox generator editor artifact (desk.ended tree process ending errors).1 := by
  cases course with
  | @generating first generates =>
      by_cases ours : process = 0
      case neg =>
        have unknown : [(0, Errand.generate artifact)].lookup process = none := by simp [ours]
        rw [Desk.ended, unknown]
        exact .generating generates
      subst ours
      change Course _ _ _ _ (concluded _ tree ending errors (.generate artifact)).1
      unfold concluded
      dsimp only
      split
      case isTrue succeeds =>
        split
        case h_1 next presents =>
          unfold present begin at presents
          split at presents
          case h_1 => cases presents
          case h_2 =>
            obtain rfl := Except.ok.inj presents
            exact .showing generates ⟨_, rfl⟩ succeeds
        case h_2 => exact .stopped generates
      case isFalse => exact .stopped generates
  | stopped generates => exact .stopped generates
  | @showing first second former generates shows succeeds =>
      by_cases ours : process = 1
      case neg =>
        have unknown : [(1, Errand.show artifact.path true)].lookup process = none := by
          simp [ours]
        rw [Desk.ended, unknown]
        exact .showing generates shows succeeds
      subst ours
      change Course _ _ _ _ (concluded _ tree ending errors (.show artifact.path true)).1
      unfold concluded verdict
      dsimp only
      split
      case h_1 accepted =>
        split at accepted
        case isTrue succeeds' => exact .shown generates shows succeeds succeeds'
        case isFalse => cases accepted
      case h_2 => exact .refused generates shows
  | refused generates shows => exact .refused generates shows
  | shown generates shows succeeds succeeds' => exact .shown generates shows succeeds succeeds'

/-- A desk that has not been used yet either starts its generator or stays as it is. -/
theorem course_of_dispatch {tree : FileTree} {next : Desk} {outcome : Except GeneratorError Unit}
    {log : Log}
    (dispatches : ({ toolbox, generator, editor } : Desk).dispatch tree artifact
      = (next, outcome, log))
    : match outcome with
      | .ok () => Course toolbox generator editor artifact next
      | .error _ => next = { toolbox, generator, editor } := by
  unfold dispatch at dispatches
  split at dispatches
  case h_1 =>
    obtain ⟨rfl, same⟩ := Prod.mk.inj dispatches
    obtain ⟨rfl, -⟩ := Prod.mk.inj same
    rfl
  case h_2 program located =>
    split at dispatches
    case h_1 =>
      obtain ⟨rfl, same⟩ := Prod.mk.inj dispatches
      obtain ⟨rfl, -⟩ := Prod.mk.inj same
      rfl
    case h_2 started begins =>
      obtain ⟨rfl, same⟩ := Prod.mk.inj dispatches
      obtain ⟨rfl, -⟩ := Prod.mk.inj same
      unfold begin at begins
      split at begins
      case h_1 => cases begins
      case h_2 =>
        obtain rfl := Except.ok.inj begins
        exact .generating ⟨tree, program, located, rfl⟩

/-- An artifact that is active was generated and shown. -/
theorem Course.eq_of_active (course : Course toolbox generator editor artifact desk)
    {document : Path} (active : desk.active = some document)
    : ∃ first second ending ending', Generates toolbox generator artifact first
        ∧ Shows editor artifact second ∧ ending.succeeded = true ∧ ending'.succeeded = true
        ∧ desk.launches = [first, second] ∧ desk.endings = [(0, ending), (1, ending')] := by
  cases course with
  | shown generates shows succeeds succeeds' =>
      exact ⟨_, _, _, _, generates, shows, succeeds, succeeds', rfl, rfl⟩
  | _ => cases active

/-- The generator was started once. -/
theorem Course.launches (course : Course toolbox generator editor artifact desk)
    : ∃ first, Generates toolbox generator artifact first
        ∧ (desk.launches = [first]
          ∨ ∃ second, Shows editor artifact second ∧ desk.launches = [first, second]) := by
  cases course with
  | generating generates => exact ⟨_, generates, .inl rfl⟩
  | stopped generates => exact ⟨_, generates, .inl rfl⟩
  | showing generates shows => exact ⟨_, generates, .inr ⟨_, shows, rfl⟩⟩
  | refused generates shows => exact ⟨_, generates, .inr ⟨_, shows, rfl⟩⟩
  | shown generates shows => exact ⟨_, generates, .inr ⟨_, shows, rfl⟩⟩

end Desk

-----------------------------------------------------------------------------------------
-- Desks with a clock
-----------------------------------------------------------------------------------------

namespace ClockedDesk

variable {root : Path} {desks : Desk → Prop} {state : ClockedDesk}

/-- A desk of some kind, with files of proper names and a workspace that knows plain paths. -/
structure Attends (root : Path) (desks : Desk → Prop) (state : ClockedDesk) : Prop where
  named : state.tree.Named
  workspace : state.workspace.IsPlain root
  desk : desks state.desk

namespace Attends

theorem adopt (attends : Attends root desks state) {others : Desk → Prop} {desk : Desk}
    (adopted : others desk) (conducts : Conducts) (now : Nat)
    : Attends root others (state.adopt conducts now desk) :=
  ⟨attends.named, attends.workspace, adopted⟩

theorem happen (attends : Attends root desks state)
    (kept : ∀ tree desk process ending errors, desks desk →
      desks (desk.ended tree process ending errors).1)
    (conducts : Conducts) (now : Nat) (prospect : Prospect)
    : Attends root desks (state.happen conducts now prospect).1 := by
  cases prospect with
  | change change =>
      exact ⟨FileTree.durable_named.apply attends.named change,
        attends.workspace.follow attends.named change, attends.desk⟩
  | ending process ending errors =>
      exact attends.adopt (kept state.tree state.desk process ending errors attends.desk) conducts
        now

/-- What the end of a process preserves is preserved as time passes, by induction on what happens.
-/
theorem advance (attends : Attends root desks state)
    (kept : ∀ tree desk process ending errors, desks desk →
      desks (desk.ended tree process ending errors).1)
    (conducts : Conducts) (now : Nat)
    : Attends root desks (state.advance conducts now).1 := by
  have waiting : Attends root desks { state with agenda := state.agenda.filter (now < ·.1) } :=
    ⟨attends.named, attends.workspace, attends.desk⟩
  unfold ClockedDesk.advance
  dsimp only
  generalize ({ state with agenda := state.agenda.filter (now < ·.1) } : ClockedDesk) = reached
    at waiting ⊢
  generalize ([] : Log) = log
  generalize state.agenda.filter (·.1 ≤ now) = due
  induction due generalizing reached log with
  | nil => exact waiting
  | cons item rest ih => exact ih _ (waiting.happen kept conducts now item.2) _

/-- A dispatch sets the desk on its course if it is successful. -/
theorem dispatch {toolbox : Toolbox} {generator : Generator} {editor : Path} {artifact : Artifact}
    (attends : Attends root (· = { toolbox, generator, editor }) state) {conducts : Conducts}
    {now : Nat} {next : ClockedDesk} {outcome : Except GeneratorError Unit} {log : Log}
    (dispatches : state.dispatch conducts now artifact = (next, outcome, log))
    : match outcome with
      | .ok () => Attends root (Desk.Course toolbox generator editor artifact) next
      | .error _ => Attends root (· = { toolbox, generator, editor }) next := by
  unfold ClockedDesk.dispatch at dispatches
  rw [attends.desk] at dispatches
  rcases started : ({ toolbox, generator, editor } : Desk).dispatch state.tree artifact
    with ⟨desk, came, told⟩
  rw [started] at dispatches
  obtain ⟨rfl, same⟩ := Prod.mk.inj dispatches
  obtain ⟨rfl, -⟩ := Prod.mk.inj same
  have course := Desk.course_of_dispatch started
  cases came with
  | ok => exact attends.adopt course conducts now
  | error => exact ⟨attends.named, attends.workspace, course⟩

/-- A search finds nothing but the path of the name in the root. -/
theorem search (attends : Attends root desks state) (plain : root.IsPlain) {name : String}
    (proper : IsName (Bytes.ofText name)) {now : Nat} {next : ClockedDesk}
    {outcome : Except String (List Path)} (searches : state.search name now = (next, outcome))
    : next = state ∧ ∀ found, outcome = .ok found → ∀ path ∈ found, path = root.child name := by
  unfold ClockedDesk.search at searches
  split at searches
  case h_1 answer finds =>
    obtain ⟨rfl, rfl⟩ := Prod.mk.inj searches
    refine ⟨rfl, ?_⟩
    intro found same path member
    obtain rfl := Except.ok.inj same
    exact attends.workspace.eq_child_of_find attends.named plain proper finds member
  case h_2 =>
    obtain ⟨rfl, rfl⟩ := Prod.mk.inj searches
    exact ⟨rfl, nofun⟩

end Attends

end ClockedDesk

end RouteDesk
