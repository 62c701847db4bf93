import RouteDesk.Proofs.Creation.Answers

/-! A conversation at a prompt, in terms of the bytes of its input. Every question takes whole lines
from where the one before it stopped, up to the one that decides it; what is shown is said by the
lines alone, and the answers do not depend on whether it can be shown.
-/

namespace RouteDesk.Dialogue

-----------------------------------------------------------------------------------------
-- Lines
-----------------------------------------------------------------------------------------

/-- The front of an input that is one line of it, with the bytes after it. -/
structure IsLine (line rest : Bytes) : Prop where
  /-- It goes no further than its first line feed. -/
  single : 0x0A ∉ line.dropLast
  /-- It goes as far as a line feed or the end of the input. -/
  whole : line.getLast? = some 0x0A ∨ line ≠ [] ∧ rest = []

theorem IsLine.ne_nil {line rest : Bytes} (isLine : IsLine line rest) : line ≠ [] := by
  rintro rfl
  simpa using isLine.whole

theorem IsLine.cons {byte : UInt8} {line rest : Bytes} (inner : byte ≠ 0x0A)
    (later : IsLine line rest)
    : IsLine (byte :: line) rest := by
  refine ⟨?_, ?_⟩
  · rw [List.dropLast_cons_of_ne_nil later.ne_nil, List.mem_cons, not_or]
    exact ⟨inner.symm, later.single⟩
  · rw [List.getLast?_cons_of_ne_nil later.ne_nil]
    exact later.whole.imp_right fun last => ⟨List.cons_ne_nil _ _, last.2⟩

/-- The first line of an input is found as such, by induction on it. -/
theorem split_append {line rest : Bytes} (isLine : IsLine line rest)
    : split (line ++ rest) = line :: split rest := by
  induction line with
  | nil => exact absurd rfl isLine.ne_nil
  | cons byte line ih =>
      obtain ⟨single, whole⟩ := isLine
      cases line with
      | nil =>
          rcases whole with feed | ⟨-, rfl⟩
          · obtain rfl := Option.some.inj feed
            rfl
          · rw [List.append_nil, split, split]
            split <;> rfl
      | cons next line =>
          rw [List.dropLast_cons_cons, List.mem_cons, not_or] at single
          rw [List.getLast?_cons_cons] at whole
          have later := ih ⟨single.2, whole.imp_right fun last => ⟨List.cons_ne_nil _ _, last.2⟩⟩
          rw [List.cons_append, split, if_neg (Ne.symm single.1), later]

/-- An input that is not over begins with a line, by induction on it. -/
theorem exists_line {input : Bytes} (given : input ≠ [])
    : ∃ line rest, input = line ++ rest ∧ IsLine line rest := by
  induction input with
  | nil => exact absurd rfl given
  | cons byte input ih =>
      by_cases feed : byte = 0x0A
      · exact ⟨[byte], input, rfl, by simp, .inl (by simp [feed])⟩
      · by_cases done : input = []
        · exact ⟨[byte], [], by rw [done]; rfl, by simp, .inr ⟨List.cons_ne_nil _ _, rfl⟩⟩
        · obtain ⟨line, rest, rfl, isLine⟩ := ih done
          exact ⟨byte :: line, rest, rfl, isLine.cons feed⟩

-----------------------------------------------------------------------------------------
-- What lines say
-----------------------------------------------------------------------------------------

/-- Whether a character belongs to the end of a line. -/
def IsEnd (char : Char) : Prop :=
  char = '\n' ∨ char = '\x0d'

/-- A line is the UTF-8 form of an answer with nothing behind it but line feeds and returns,
none of which the answer ends with.
-/
structure Gives (line : Bytes) (answer : String) : Prop where
  text : ∃ ending : List Char,
    Bytes.toText? line = some (answer ++ String.ofList ending) ∧ ∀ char ∈ ending, IsEnd char
  trimmed (char : Char) (last : answer.toList.getLast? = some char) : ¬ IsEnd char

theorem gives_withoutEnd {line : Bytes} {text : String} (legible : Bytes.toText? line = some text)
    : Gives line (withoutEnd text) := by
  let isEnd (char : Char) : Bool := char == '\n' || char == '\x0d'
  have split : text.toList = (text.toList.reverse.dropWhile isEnd).reverse
      ++ (text.toList.reverse.takeWhile isEnd).reverse := by
    rw [← List.reverse_append, List.takeWhile_append_dropWhile, List.reverse_reverse]
  refine ⟨⟨(text.toList.reverse.takeWhile isEnd).reverse, ?_, ?_⟩, ?_⟩
  · rw [legible, withoutEnd, ← String.ofList_append, ← split, String.ofList_toList]
  · intro char member
    have ends := List.all_eq_true.mp List.all_takeWhile char (List.mem_reverse.mp member)
    simpa [isEnd, IsEnd] using ends
  · intro char last
    rw [withoutEnd, String.toList_ofList, List.getLast?_reverse] at last
    have inner := List.head?_dropWhile_not isEnd text.toList.reverse
    rw [show List.head? _ = some char from last] at inner
    simpa [isEnd, IsEnd] using inner

/-- A line gives one answer. -/
theorem Gives.text_eq {line : Bytes} {answer : String} (gives : Gives line answer)
    : ∃ text, Bytes.toText? line = some text ∧ withoutEnd text = answer := by
  obtain ⟨⟨ending, legible, ends⟩, trimmed⟩ := gives
  refine ⟨_, legible, ?_⟩
  have dropped : ∀ char ∈ ending.reverse, (char == '\n' || char == '\x0d') = true := by
    intro char member
    simpa [IsEnd] using ends char (List.mem_reverse.mp member)
  have stops : answer.toList.reverse.dropWhile (fun char => char == '\n' || char == '\x0d')
      = answer.toList.reverse := by
    cases back : answer.toList.reverse with
    | nil => rfl
    | cons char front =>
        have last : answer.toList.getLast? = some char := by
          rw [← List.head?_reverse, back]
          rfl
        have inner := trimmed char last
        exact List.dropWhile_cons_of_neg (by simpa [IsEnd] using inner)
  rw [withoutEnd, String.toList_append, String.toList_ofList, List.reverse_append,
    List.dropWhile_append_of_pos dropped, stops, List.reverse_reverse, String.ofList_toList]

-----------------------------------------------------------------------------------------
-- Questions
-----------------------------------------------------------------------------------------

/-- What a question has heard: the answers that were refused and why, the answer that settles it,
and the input that it leaves.
-/
structure Hearing where
  refused : List (String × NameError)
  answer : Option String
  rest : Bytes

/-- What a question hears from an input. The answer is the first one that is accepted; the question
is given up at a line that says nothing or is no text, and at the end of the input.
-/
inductive Hears (check : String → Except NameError Unit) : Bytes → Hearing → Prop
  | nothing : Hears check [] ⟨[], none, []⟩
  | illegible {line rest : Bytes} (isLine : IsLine line rest) (noText : Bytes.toText? line = none)
    : Hears check (line ++ rest) ⟨[], none, rest⟩
  | empty {line rest : Bytes} (isLine : IsLine line rest) (gives : Gives line "")
    : Hears check (line ++ rest) ⟨[], none, rest⟩
  | accepts {line rest : Bytes} {answer : String} (isLine : IsLine line rest)
    (gives : Gives line answer) (given : answer ≠ "") (accepted : check answer = .ok ())
    : Hears check (line ++ rest) ⟨[], some answer, rest⟩
  | refuses {line rest : Bytes} {answer : String} {reason : NameError} {later : Hearing}
    (isLine : IsLine line rest) (gives : Gives line answer) (given : answer ≠ "")
    (unaccepted : check answer = .error reason) (goesOn : Hears check rest later)
    : Hears check (line ++ rest) { later with refused := (answer, reason) :: later.refused }

/-- The prompt with an input still to be read. -/
def withInput (prompt : Dialogue) (input : Bytes) : Dialogue :=
  { prompt with lines := split input }

/-- What is shown with the last line that a question takes. -/
theorem told_withInput (prompt : Dialogue) (message : String) (input : Bytes)
    : { prompt.told (message ++ " ") with lines := split input }
      = (prompt.told (refusals message [] ++ (message ++ " "))).withInput input := by
  rw [refusals, String.empty_append]
  rfl

/-- What a question hears decides on its answer, on the input that it leaves, and on what it shows
if it can. Witness: induction on the lines that it hears.
-/
theorem Hears.asked {check : String → Except NameError Unit} {input : Bytes} {hearing : Hearing}
    (hears : Hears check input hearing) (message : String) (prompt : Dialogue)
    : (ask.go message check (split input) prompt).answer = hearing.answer
      ∧ (ask.go message check (split input) prompt).prompt
        = (prompt.told (refusals message hearing.refused ++ (message ++ " "))).withInput
            hearing.rest := by
  induction hears generalizing prompt with
  | nothing =>
      simp only [split, ask.go, say_eq_told]
      exact ⟨trivial, told_withInput prompt message []⟩
  | illegible isLine noText =>
      simp only [split_append isLine, ask.go, say_eq_told, noText, told_withInput, and_self]
  | empty isLine gives =>
      obtain ⟨text, legible, given⟩ := gives.text_eq
      simp only [split_append isLine, ask.go, say_eq_told, legible, if_pos given, told_withInput,
        and_self]
  | accepts isLine gives given accepted =>
      obtain ⟨text, legible, rfl⟩ := gives.text_eq
      simp only [split_append isLine, ask.go, say_eq_told, legible, if_neg given, accepted,
        told_withInput, and_self]
  | @refuses line rest answer reason later isLine gives given unaccepted goesOn ih =>
      obtain ⟨text, legible, rfl⟩ := gives.text_eq
      simp only [split_append isLine, ask.go, say_eq_told, told_told, legible, if_neg given,
        unaccepted]
      obtain ⟨answer, left⟩ := ih (prompt.told (message ++ " " ++ s!"✗ {reason.message}\n"))
      refine ⟨answer, left.trans ?_⟩
      simp only [told_told, refusals, String.append_assoc]

/-- Every question hears something, by induction on the length of the input. -/
theorem exists_hears (check : String → Except NameError Unit) (input : Bytes)
    : ∃ hearing, Hears check input hearing := by
  induction size : input.length using Nat.strong_induction_on generalizing input with
  | _ size ih =>
      by_cases done : input = []
      · exact done ▸ ⟨_, .nothing⟩
      obtain ⟨line, rest, rfl, isLine⟩ := exists_line done
      have shorter : rest.length < (line ++ rest).length := by
        rw [List.length_append]
        exact Nat.lt_add_of_pos_left (List.length_pos_iff.mpr isLine.ne_nil)
      cases legible : Bytes.toText? line with
      | none => exact ⟨_, .illegible isLine legible⟩
      | some text =>
          have gives := gives_withoutEnd legible
          by_cases empty : withoutEnd text = ""
          · exact ⟨_, .empty isLine (empty ▸ gives)⟩
          · cases verdict : check (withoutEnd text) with
            | ok => exact ⟨_, .accepts isLine gives empty verdict⟩
            | error reason =>
                obtain ⟨later, goesOn⟩ := ih _ (size ▸ shorter) rest rfl
                exact ⟨_, .refuses isLine gives empty verdict goesOn⟩

-----------------------------------------------------------------------------------------
-- Conversations
-----------------------------------------------------------------------------------------

/-- What is done at a prompt. -/
inductive Utterance where
  | question (message : String) (check : String → Except NameError Unit)
  | remark (message : String)

/-- Asks and tells one after the other; the answers and the prompt afterwards. -/
def converse : List Utterance → Dialogue → List (Option String) × Dialogue
  | [], prompt => ([], prompt)
  | .question message check :: rest, prompt =>
    let asked := prompt.ask message check
    let (answers, last) := converse rest asked.prompt
    (asked.answer :: answers, last)
  | .remark message :: rest, prompt => converse rest (prompt.tell message).1

/-- A conversation over an input, with some answers, shows a text and leaves a part of the input.
Only questions take from the input, each from where the one before it stopped.
-/
inductive Goes : List Utterance → Bytes → List (Option String) → String → Bytes → Prop
  | ends {input : Bytes} : Goes [] input [] "" input
  | asks {message : String} {check : String → Except NameError Unit} {input last : Bytes}
    {hearing : Hearing} {rest : List Utterance} {answers : List (Option String)} {shown : String}
    (hears : Hears check input hearing) (goesOn : Goes rest hearing.rest answers shown last)
    : Goes (.question message check :: rest) input (hearing.answer :: answers)
        (refusals message hearing.refused ++ (message ++ " ") ++ shown) last
  | remarks {message : String} {input last : Bytes} {rest : List Utterance}
    {answers : List (Option String)} {shown : String} (goesOn : Goes rest input answers shown last)
    : Goes (.remark message :: rest) input answers (s!"⚠️ {message}\n" ++ shown) last

/-- The way that a conversation goes decides on its answers, on the input that it leaves, and on
what it shows if it can, by induction on what is done.
-/
theorem Goes.conversed {utterances : List Utterance} {input last : Bytes}
    {answers : List (Option String)} {shown : String}
    (goes : Goes utterances input answers shown last) (prompt : Dialogue)
    : converse utterances (prompt.withInput input)
      = (answers, (prompt.told shown).withInput last) := by
  induction goes generalizing prompt with
  | ends =>
      rw [told_empty]
      rfl
  | @asks message check _ _ hearing rest answers shown hears goesOn ih =>
      obtain ⟨answer, left⟩ := hears.asked message (prompt.withInput _)
      change ((prompt.withInput _).ask message check).answer = _ at answer
      change ((prompt.withInput _).ask message check).prompt
        = (prompt.told _).withInput hearing.rest at left
      rw [converse, left, answer, ih, told_told]
  | @remarks message input _ _ _ _ goesOn ih =>
      have tells : ((prompt.withInput input).tell message).1
          = (prompt.told s!"⚠️ {message}\n").withInput input := say_eq_told _ _
      rw [converse, tells, ih, told_told]

theorem exists_goes (utterances : List Utterance) (input : Bytes)
    : ∃ answers shown last, Goes utterances input answers shown last := by
  induction utterances generalizing input with
  | nil => exact ⟨[], "", input, .ends⟩
  | cons utterance rest ih =>
      cases utterance with
      | question message check =>
          obtain ⟨hearing, hears⟩ := exists_hears check input
          obtain ⟨answers, shown, last, goesOn⟩ := ih hearing.rest
          exact ⟨_, _, _, .asks hears goesOn⟩
      | remark message =>
          obtain ⟨answers, shown, last, goesOn⟩ := ih input
          exact ⟨_, _, _, .remarks goesOn⟩

/-- Every conversation goes as the lines of its input say. Where the output takes nothing, it has
the same answers and leaves the same input.
-/
theorem goes_converse (utterances : List Utterance) (input : Bytes)
    : (∃ answers shown last, Goes utterances input answers shown last)
      ∧ ∀ answers shown last, Goes utterances input answers shown last → ∀ refusing,
          converse utterances (.ofInput input refusing)
            = (answers,
                { lines := split last, refusing, shown := if refusing then "" else shown }) := by
  refine ⟨exists_goes utterances input, fun answers shown last goes refusing => ?_⟩
  refine (goes.conversed { lines := [], refusing }).trans ?_
  rw [told, withInput, String.empty_append]

end RouteDesk.Dialogue
