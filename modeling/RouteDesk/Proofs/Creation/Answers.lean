import RouteDesk.Creation.World
import Mathlib.Tactic

/-! The search for a name that the generator starts for, with a user whose answers are known. Every
question takes the answers up to the first that is accepted; a name whose generator does not start
is reported, and the next question takes up the answers from there.
-/

namespace RouteDesk

-----------------------------------------------------------------------------------------
-- Answers
-----------------------------------------------------------------------------------------

namespace Dialogue

/-- What a line says, without its end. A line that is not text says nothing. -/
def said (line : Bytes) : String :=
  ((Bytes.toText? line).map withoutEnd).getD ""

/-- What lines say one after the other, up to the first that says nothing. -/
def answers (lines : List Bytes) : List String :=
  (lines.map said).takeWhile (· ≠ "")

theorem answers_cons_of_empty {line : Bytes} (empty : said line = "") (rest : List Bytes)
    : answers (line :: rest) = [] := by
  rw [answers, List.map_cons, List.takeWhile_cons_of_neg (by simp [empty])]

theorem answers_cons {line : Bytes} (proper : said line ≠ "") (rest : List Bytes)
    : answers (line :: rest) = said line :: answers rest := by
  rw [answers, List.map_cons, List.takeWhile_cons_of_pos (by simpa using proper)]
  rfl

theorem length_answers_le (lines : List Bytes) : (answers lines).length ≤ lines.length := by
  have shorter := (List.takeWhile_sublist (· ≠ "") (l := lines.map said)).length_le
  rw [List.length_map] at shorter
  exact shorter

/-- The prompt after a text was shown. -/
def told (prompt : Dialogue) (text : String) : Dialogue :=
  { prompt with shown := if prompt.refusing then prompt.shown else prompt.shown ++ text }

theorem say_eq_told (prompt : Dialogue) (text : String)
    : (prompt.say text).1 = prompt.told text := by
  unfold say told
  split <;> rfl

theorem told_empty (prompt : Dialogue) : prompt.told "" = prompt := by
  simp [told]

theorem told_told (prompt : Dialogue) (text more : String)
    : (prompt.told text).told more = prompt.told (text ++ more) := by
  unfold told
  dsimp only
  split
  · rfl
  · rw [String.append_assoc]

/-- Whatever is shown next makes the same of prompts that look the same. -/
theorem shown_told_congr {prompt other : Dialogue} (refusing : prompt.refusing = other.refusing)
    (shown : prompt.shown = other.shown) (text : String)
    : (prompt.told text).shown = (other.told text).shown := by
  unfold told
  rw [refusing, shown]

/-- What is shown with a question before its last answer: the question and a reason for every
answer that is refused.
-/
def refusals (message : String) : List (String × NameError) → String
  | [] => ""
  | (_, reason) :: rest =>
      message ++ " " ++ s!"✗ {reason.message}\n" ++ refusals message rest

/-- What has come of a question for which some answers were refused. -/
structure Answered (message : String) (check : String → Except NameError Unit)
    (prompt : Dialogue) (refused : List (String × NameError)) (asked : Asked)
    : Prop where
  refuses : ∀ answer ∈ refused, check answer.1 = .error answer.2
  refusing : asked.prompt.refusing = prompt.refusing
  shown : asked.prompt.shown = (prompt.told (refusals message refused ++ (message ++ " "))).shown
  noMore (ended : asked.answer = none) : answers prompt.lines = refused.map Prod.fst
  accepted (name : String) (found : asked.answer = some name)
    : check name = .ok ()
      ∧ answers prompt.lines = refused.map Prod.fst ++ name :: answers asked.prompt.lines

/-- A question takes the answers one after the other up to the first that is accepted, by induction
on the lines.
-/
theorem answered_ask (message : String) (check : String → Except NameError Unit)
    (prompt : Dialogue)
    : ∃ refused, Answered message check prompt refused (prompt.ask message check) := by
  suffices ∀ lines (prompt : Dialogue), ∃ refused,
      Answered message check { prompt with lines } refused (ask.go message check lines prompt) from
    this prompt.lines prompt
  intro lines
  induction lines with
  | nil =>
      intro prompt
      refine ⟨[], nofun, ?_, ?_, fun _ => rfl, nofun⟩ <;>
        simp only [ask.go, say_eq_told, refusals, String.empty_append] <;> rfl
  | cons line rest ih =>
      intro prompt
      -- the question comes to an end with this line
      have ends (answer : Option String) (log : Log)
          (noMore : answer = none → answers (line :: rest) = [])
          (accepted : ∀ name, answer = some name → check name = .ok ()
            ∧ answers (line :: rest) = name :: answers rest)
          : Answered message check { prompt with lines := line :: rest } []
              ⟨answer, { prompt.told (message ++ " ") with lines := rest }, log⟩ := by
        refine ⟨nofun, rfl, ?_, noMore, accepted⟩
        simp only [refusals, String.empty_append]
        rfl
      simp only [ask.go, say_eq_told]
      cases legible : Bytes.toText? line with
      | none =>
          refine ⟨[], ends none _ (fun _ => answers_cons_of_empty ?_ rest) nofun⟩
          simp [said, legible]
      | some text =>
          have reads : said line = withoutEnd text := by simp [said, legible]
          dsimp only
          split
          case isTrue empty =>
            exact ⟨[], ends none _ (fun _ => answers_cons_of_empty (reads.trans empty) rest) nofun⟩
          case isFalse proper =>
            have more := answers_cons (reads ▸ proper) rest
            rw [reads] at more
            cases verdict : check (withoutEnd text) with
            | ok =>
                refine ⟨[], ends _ _ nofun fun name found => ?_⟩
                obtain rfl := Option.some.inj found
                exact ⟨verdict, more⟩
            | error reason =>
                obtain ⟨refused, later⟩ :=
                  ih (prompt.told (message ++ " " ++ s!"✗ {reason.message}\n"))
                have tells := prompt.told_told (message ++ " " ++ s!"✗ {reason.message}\n")
                  (refusals message refused ++ (message ++ " "))
                rw [← @String.append_assoc _ (refusals message refused)] at tells
                dsimp only
                rw [told_told]
                refine ⟨(withoutEnd text, reason) :: refused, ?_, later.refusing, ?_, ?_, ?_⟩
                · exact List.forall_mem_cons.mpr ⟨verdict, later.refuses⟩
                · have shown := congrArg Dialogue.shown tells
                  exact later.shown.trans shown
                · intro ended
                  exact more.trans (congrArg (withoutEnd text :: ·) (later.noMore ended))
                · intro name found
                  obtain ⟨accepted, left⟩ := later.accepted name found
                  exact ⟨accepted, more.trans (congrArg (withoutEnd text :: ·) left)⟩

end Dialogue

-----------------------------------------------------------------------------------------
-- Interviews
-----------------------------------------------------------------------------------------

/-- What comes of a search for a name. -/
structure Interview (σ : Type) where
  /-- The names that the generator has not been started for, and why. -/
  failures : List (String × GeneratorError) := []
  /-- The name that it has been started for, and what the world was like before. -/
  chosen : Option (String × σ) := none
  /-- What the user is shown. -/
  shown : String := ""

namespace Interview

variable {σ : Type}

/-- The interview with a text shown before it. -/
def after (text : String) (interview : Interview σ) : Interview σ :=
  { interview with shown := text ++ interview.shown }

/-- The interview with a name before it that the generator was not started for. -/
def failing (name : String) (reason : GeneratorError) (interview : Interview σ) : Interview σ :=
  { interview with failures := (name, reason) :: interview.failures }.after
    s!"⚠️ {reason.chain}\n"

/-- The names that the generator is to be started for. -/
def names (interview : Interview σ) : List String :=
  interview.failures.map Prod.fst ++ interview.chosen.toList.map Prod.fst

/-- What happens as soon as a name is accepted. -/
def accepting (root : Path) (dialect : Dialect) (name : String) : List Event :=
  [.checked name (.ok ()), .dispatching (.of root dialect name)]

/-- What happens with a name that the generator is not started for. -/
def failed (root : Path) (dialect : Dialect) (failure : String × GeneratorError) : List Event :=
  accepting root dialect failure.1
    ++ [.dispatched (.error failure.2), .reported failure.2.chain, .asked]

/-- What happens in an interview after the first question. -/
def events (root : Path) (dialect : Dialect) (interview : Interview σ) : List Event :=
  interview.failures.flatMap (failed root dialect)
    ++ interview.chosen.toList.flatMap fun choice =>
      accepting root dialect choice.1 ++ [.dispatched (.ok ())]

theorem after_after (text more : String) (interview : Interview σ)
    : (interview.after more).after text = interview.after (text ++ more) := by
  simp [after, String.append_assoc]

theorem names_after (text : String) (interview : Interview σ)
    : (interview.after text).names = interview.names :=
  rfl

end Interview

/-- The artifact that the generator is started for by an event. -/
def Event.artifact? : Event → Option Artifact
  | .dispatching artifact => some artifact
  | _ => none

/-- In an interview the generator is started for the names in their order. -/
theorem Interview.artifacts_events {σ : Type} (root : Path) (dialect : Dialect)
    (interview : Interview σ)
    : (interview.events root dialect).filterMap Event.artifact?
      = interview.names.map (.of root dialect) := by
  have failures (failures : List (String × GeneratorError))
      : (failures.flatMap (failed root dialect)).filterMap Event.artifact?
        = (failures.map Prod.fst).map (.of root dialect) := by
    induction failures with
    | nil => rfl
    | cons failure rest ih =>
        rw [List.flatMap_cons, List.filterMap_append, ih]
        rfl
  rw [events, names, List.filterMap_append, List.map_append, failures]
  cases interview.chosen <;> rfl

namespace World

variable {σ : Type}

/-- The interview from an accepted name on; after a failure it begins again. -/
def attempt (world : World σ) (root : Path) (dialect : Dialect) (name : String)
    (again : σ → Interview σ) (state : σ)
    : Interview σ :=
  match world.dispatch 0 (.of root dialect name) state with
  | (_, .ok (), _) => { chosen := some (name, state) }
  | (later, .error reason, _) => (again later).failing name reason

/-- The interview with a user who gives these answers. -/
def interview (world : World σ) (root : Path) (dialect : Dialect)
    : List String → σ → Interview σ
  | [], _ => Interview.after (Creator.question dialect ++ " ") {}
  | answer :: rest, state =>
      Interview.after (Creator.question dialect ++ " ")
        (match RouteName.check (world.tree state) root dialect answer with
        | .error reason =>
            (world.interview root dialect rest state).after s!"✗ {reason.message}\n"
        | .ok () => world.attempt root dialect answer (world.interview root dialect rest) state)

variable {world : World σ} {root : Path} {dialect : Dialect}

/-- Answers that are refused leave nothing but what is shown, by induction on them. -/
theorem interview_refused {state : σ} {refused : List (String × NameError)}
    (refuses : ∀ answer ∈ refused,
      RouteName.check (world.tree state) root dialect answer.1 = .error answer.2)
    (more : List String)
    : world.interview root dialect (refused.map Prod.fst ++ more) state
      = (world.interview root dialect more state).after
          (Dialogue.refusals (Creator.question dialect) refused) := by
  induction refused with
  | nil => simp [Dialogue.refusals, Interview.after]
  | cons answer rest ih =>
      obtain ⟨first, later⟩ := List.forall_mem_cons.mp refuses
      simp only [List.map_cons, List.cons_append, interview, first, ih later,
        Dialogue.refusals, Interview.after, String.append_assoc]

/-- The names are answers, in their order, by induction on the answers. -/
theorem names_interview_sublist (world : World σ) (root : Path) (dialect : Dialect)
    (answers : List String) (state : σ)
    : (world.interview root dialect answers state).names.Sublist answers := by
  induction answers generalizing state with
  | nil => exact List.Sublist.refl []
  | cons answer rest ih =>
      rw [interview, Interview.names_after]
      split
      case h_1 => exact (ih state).cons answer
      case h_2 =>
        rw [attempt]
        split
        case h_1 => simp [Interview.names]
        case h_2 later reason _ _ => exact (ih later).cons_cons answer

end World

end RouteDesk
