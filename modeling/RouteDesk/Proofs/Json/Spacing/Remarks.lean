import RouteDesk.Proofs.Json.Spacing.Comments
import RouteDesk.Text.Blank

/-! Texts without a document: nothing stands in them but white space and comments. The reader finds
no value in such a text, be it that the text is over or that white space stands there which is none
to the reader.
-/

namespace RouteDesk.Json

open Comments

-----------------------------------------------------------------------------------------
-- Bytes that begin no token
-----------------------------------------------------------------------------------------

/-- No token of a document begins with the byte. -/
def OffTokens (byte : UInt8) : Prop :=
  byte.toNat ≤ 0x20 ∨ 0x80 ≤ byte.toNat

instance : DecidablePred OffTokens :=
  fun byte => inferInstanceAs (Decidable (byte.toNat ≤ 0x20 ∨ 0x80 ≤ byte.toNat))

theorem offTokens_of_isBlank {char : Char} (white : Text.isBlank char = true)
    : ∀ byte ∈ String.utf8EncodeChar char, OffTokens byte := by
  intro byte member
  by_cases wide : 128 ≤ char.val.toNat
  case pos => exact .inr (Bytes.le_of_mem_utf8EncodeChar wide member)
  case neg =>
    have small : char.val.toNat ≤ 0x20 := by
      change char.toNat ≤ 0x20
      have narrow : char.toNat < 128 := Nat.lt_of_not_le wide
      simp [Text.isBlank, Text.blankRanges] at white
      omega
    rw [String.utf8EncodeChar, if_pos (by omega), List.mem_singleton] at member
    subst member
    refine .inl ?_
    simp only [UInt8.toNat_ofNat']
    omega

theorem not_isDigit_of_offTokens {byte : UInt8} (off : OffTokens byte)
    : Reading.isDigit byte = false := by
  by_contra digit
  simp only [Reading.isDigit, Bool.not_eq_false, Bool.and_eq_true, decide_eq_true_eq,
    UInt8.le_iff_toNat_le] at digit
  change 0x30 ≤ byte.toNat ∧ byte.toNat ≤ 0x39 at digit
  rcases off with low | high <;> omega

theorem step_of_offTokens {byte : UInt8} (off : OffTokens byte)
    : Mode.plain.step byte = some (byte, .plain) := by
  refine step_plain ?_ ?_ ?_ <;> rintro rfl <;> exact absurd off (by decide)

-----------------------------------------------------------------------------------------
-- Texts of white space and comments
-----------------------------------------------------------------------------------------

/-- A text of nothing but white space and complete comments. A comment to the end of its line is
followed by the line break or by nothing.
-/
inductive IsRemarks : Bytes → Prop
  | done : IsRemarks []
  | blank {char : Char} {text : Bytes} (white : Text.isBlank char = true) (rest : IsRemarks text)
    : IsRemarks (String.utf8EncodeChar char ++ text)
  | block {body text : Bytes} (closed : ¬[0x2A, 0x2F] <:+: body) (rest : IsRemarks text)
    : IsRemarks ([0x2F, 0x2A] ++ body ++ [0x2A, 0x2F] ++ text)
  | line {mark body text : Bytes} (begins : mark = [0x2F, 0x2F] ∨ mark = [0x23])
    (single : 0x0A ∉ body) (ends : text.head? = none ∨ text.head? = some 0x0A)
    (rest : IsRemarks text)
    : IsRemarks (mark ++ body ++ text)

/-- A blank text is one without comments. -/
theorem isRemarks_of_isAllBlank {text : String} (blank : Text.isAllBlank text = true)
    : IsRemarks (Bytes.ofText text) := by
  rw [← String.ofList_toList (s := text), Bytes.ofText_ofList]
  unfold Text.isAllBlank at blank
  generalize text.toList = chars at blank
  induction chars with
  | nil => exact .done
  | cons char chars ih =>
      rw [List.all_cons, Bool.and_eq_true] at blank
      exact .blank blank.1 (ih blank.2)

/-- The feed holds nothing but bytes that begin no token. -/
inductive Feed.Tokenless : Feed → Prop
  | done : Tokenless .done
  | byte {value : UInt8} {rest : Feed} (off : OffTokens value) (later : Tokenless rest)
    : Tokenless (.byte value rest)

theorem Feed.Tokenless.indented {feed : Feed} (tokenless : feed.Tokenless) (count : Nat)
    : (feed.indented count).Tokenless := by
  induction count with
  | zero => exact tokenless
  | succ count ih => exact .byte (by decide) ih

/-- Nothing of such a text is shown but bytes that begin no token. -/
theorem tokenless_blank {text : Bytes} (remarks : IsRemarks text)
    : (blank text).Tokenless := by
  induction remarks with
  | done => exact .done
  | @blank char text white rest ih =>
      have off := offTokens_of_isBlank white
      generalize String.utf8EncodeChar char = bytes at off
      induction bytes with
      | nil => exact ih
      | cons byte bytes more =>
          obtain ⟨first, later⟩ := List.forall_mem_cons.mp off
          have shown : blank (byte :: bytes ++ text) = .byte byte (blank (bytes ++ text)) := by
            rw [List.cons_append, blank, blankFrom, step_of_offTokens first]
            rfl
          rw [shown]
          exact .byte first (more later)
  | block closed rest ih =>
      rw [blank_block closed]
      exact ih.indented _
  | line begins single ends rest ih =>
      rw [blank_line begins single ends]
      exact ih.indented _

-----------------------------------------------------------------------------------------
-- Reading them
-----------------------------------------------------------------------------------------

/-- The first token is none that begins a value, by induction on the feed. -/
theorem peekToken_of_tokenless {feed : Feed} (tokenless : feed.Tokenless) (taken : Nat)
    : ∃ token next, Reading.peekToken.go feed taken = .ok token next
        ∧ ∀ byte ∈ token, OffTokens byte := by
  induction tokenless generalizing taken with
  | done => exact ⟨none, _, rfl, nofun⟩
  | @byte value rest off later ih =>
      rw [Reading.peekToken.go]
      split
      case isTrue => exact ih _
      case isFalse => exact ⟨some value, _, rfl, fun _ same => Option.some.inj same ▸ off⟩

/-- No value is found in such a text. -/
def ReadError.FindsNoValue (error : ReadError) : Prop :=
  error.refusal = .endInValue ∨ error.refusal = .expectedValue

/-- A text of nothing but white space and comments holds no document. -/
theorem ofCommented_of_isRemarks {text : Bytes} (remarks : IsRemarks text)
    : ∃ error, ofCommented text = .error error ∧ error.FindsNoValue := by
  obtain ⟨token, next, found, off⟩ := peekToken_of_tokenless (tokenless_blank remarks) 0
  have refused : ∃ refusal given,
      Reading.value Reading.depthLimit ⟨blank text, 0, false⟩ = .error ⟨refusal, given⟩ next
      ∧ (refusal = .endInValue ∨ refusal = .expectedValue) := by
    change ∃ refusal given, EStateM.bind Reading.peekToken _ _ = _ ∧ _
    rw [EStateM.bind, Reading.peekToken, found]
    dsimp only
    split
    case h_1 => exact ⟨_, _, rfl, .inl rfl⟩
    case h_9 value _ _ _ _ _ _ _ =>
      rw [not_isDigit_of_offTokens (off value rfl)]
      exact ⟨_, _, rfl, .inr rfl⟩
    all_goals exact absurd (off _ rfl) (by decide)
  obtain ⟨refusal, given, reached, which⟩ := refused
  have document : Reading.document ⟨blank text, 0, false⟩ = .error ⟨refusal, given⟩ next := by
    change EStateM.bind (Reading.value Reading.depthLimit) _ _ = _
    rw [EStateM.bind, reached]
  rw [ofCommented, ofFeed, document]
  exact ⟨_, rfl, which⟩

end RouteDesk.Json
