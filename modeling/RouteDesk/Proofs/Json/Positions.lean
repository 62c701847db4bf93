import RouteDesk.Proofs.Json.Counts
import Mathlib.Data.List.Induction

/-! Where an error stands in a text with comments. The place that is reported is counted in the
text with its comments blanked, up to the last byte that the reader was given. It is the place of
that byte in the text itself unless blanking has lost a line break, or a byte of the last line.
-/

namespace RouteDesk.Json

namespace Comments

/-- Where the blanking stands after a byte. One that cannot stand there is left out. -/
def Mode.next (mode : Mode) (value : UInt8) : Mode :=
  match mode.step value with
  | some (_, next) => next
  | none => mode

/-- Where the blanking stands after some bytes. -/
def Mode.along (mode : Mode) (front : Bytes) : Mode :=
  front.foldl Mode.next mode

/-- What is shown for a byte. -/
def Mode.shown (mode : Mode) (value : UInt8) : Bytes :=
  match mode.step value with
  | some (shown, _) => [shown]
  | none => []

theorem bytes_blankFrom_cons (mode : Mode) (value : UInt8) (rest : Bytes)
    : (blankFrom mode (value :: rest)).bytes
      = mode.shown value ++ (blankFrom (mode.next value) rest).bytes := by
  rw [blankFrom, Mode.shown, Mode.next]
  cases mode.step value <;> rfl

/-- Blanking proceeds piece by piece, by induction on the first piece. -/
theorem bytes_blankFrom_append (mode : Mode) (front back : Bytes)
    : (blankFrom mode (front ++ back)).bytes
      = (blankFrom mode front).bytes ++ (blankFrom (mode.along front) back).bytes := by
  induction front generalizing mode with
  | nil => simp [blankFrom, Mode.along, apply_ite Feed.bytes, Feed.bytes]
  | cons value front ih =>
      rw [List.cons_append, bytes_blankFrom_cons, bytes_blankFrom_cons, ih, List.append_assoc]
      rfl

theorem bytes_blank_append (front back : Bytes)
    : (blank (front ++ back)).bytes
      = (blank front).bytes ++ (blankFrom (Mode.plain.along front) back).bytes :=
  bytes_blankFrom_append .plain front back

theorem bytes_blank_concat (front : Bytes) (value : UInt8)
    : (blank (front ++ [value])).bytes
      = (blank front).bytes ++ (Mode.plain.along front).shown value := by
  rw [bytes_blank_append, bytes_blankFrom_cons]
  simp [blankFrom, apply_ite Feed.bytes, Feed.bytes]

-----------------------------------------------------------------------------------------
-- Bytes that are not shown as they are
-----------------------------------------------------------------------------------------

/-- A line break stands in a block comment, where it is shown as a blank. -/
def HidesBreak (text : Bytes) : Prop :=
  ∃ before rest, text = before ++ 0x0A :: rest
    ∧ (Mode.plain.along before = .block ∨ Mode.plain.along before = .star)

/-- A byte that follows a lone slash is left out, and is a line break or stands in the last line. -/
def DropsByte (text : Bytes) : Prop :=
  ∃ before value rest, text = before ++ value :: rest
    ∧ (Mode.plain.along before).step value = none ∧ (value = 0x0A ∨ 0x0A ∉ rest)

/-- A line break is shown as itself, or it is in a block comment, or it cannot stand. -/
theorem Mode.shown_break (mode : Mode)
    : (mode.shown 0x0A = [0x0A] ∧ ¬(mode = .block ∨ mode = .star) ∧ mode.step 0x0A ≠ none)
      ∨ (mode.shown 0x0A = [space] ∧ (mode = .block ∨ mode = .star))
      ∨ (mode.shown 0x0A = [] ∧ mode.step 0x0A = none) := by
  cases mode <;> decide

/-- No other byte is shown as a line break. -/
theorem Mode.shown_other (mode : Mode) {value : UInt8} (other : value ≠ 0x0A)
    : (∃ shown, mode.shown value = [shown] ∧ shown ≠ 0x0A ∧ mode.step value ≠ none)
      ∨ (mode.shown value = [] ∧ mode.step value = none) := by
  cases h : mode.step value with
  | none => exact .inr ⟨by rw [Mode.shown, h], rfl⟩
  | some found =>
      obtain ⟨shown, next⟩ := found
      refine .inl ⟨shown, by rw [Mode.shown, h], ?_, nofun⟩
      unfold Mode.step at h
      split at h
      case h_11 => cases h
      all_goals
        obtain ⟨rfl, rfl⟩ := Prod.mk.inj (Option.some.inj h)
        first | exact other | decide

/-- A place in a text to which one byte is added is the byte's own place or one before. -/
theorem exists_split_concat {place : Bytes → UInt8 → Bytes → Prop} {text : Bytes} {last : UInt8}
    : (∃ before value rest, text ++ [last] = before ++ value :: rest ∧ place before value rest)
      ↔ place text last []
        ∨ ∃ before value rest, text = before ++ value :: rest
            ∧ place before value (rest ++ [last]) := by
  constructor
  · rintro ⟨before, value, rest, same, holds⟩
    rcases List.eq_nil_or_concat rest with rfl | ⟨init, final, rfl⟩
    · obtain ⟨rfl, ends⟩ := List.append_inj' same rfl
      obtain rfl := (List.cons.inj ends).1
      exact .inl holds
    · rw [List.concat_eq_append] at same holds
      rw [← List.cons_append, ← List.append_assoc] at same
      obtain ⟨rfl, ends⟩ := List.append_inj' same rfl
      obtain rfl := (List.cons.inj ends).1
      exact .inr ⟨before, value, init, rfl, holds⟩
  · rintro (holds | ⟨before, value, rest, rfl, holds⟩)
    · exact ⟨text, last, [], rfl, holds⟩
    · exact ⟨before, value, rest ++ [last], by simp, holds⟩

end Comments

-----------------------------------------------------------------------------------------
-- Places in a text and in the text as it is shown
-----------------------------------------------------------------------------------------

theorem Position.eq_of_parts {first second : Position} (line : first.line = second.line)
    (column : first.column = second.column)
    : first = second := by
  cases first
  cases second
  cases line
  cases column
  rfl

theorem Position.after_break (bytes : Bytes)
    : Position.after (bytes ++ [0x0A]) = ⟨(Position.after bytes).line + 1, 0⟩ := by
  simp [Position.after]

theorem Position.after_other (bytes : Bytes) {value : UInt8} (other : value ≠ 0x0A)
    : Position.after (bytes ++ [value])
      = ⟨(Position.after bytes).line, (Position.after bytes).column + 1⟩ := by
  simp [Position.after, other]

namespace Comments

/-- A line break is not shown as one. -/
def LosesBreak (text : Bytes) : Prop :=
  ∃ before value rest, text = before ++ value :: rest
    ∧ value = 0x0A ∧ (Mode.plain.along before).shown value ≠ [0x0A]

/-- A byte of the last line is not shown. -/
def ShortensLine (text : Bytes) : Prop :=
  ∃ before value rest, text = before ++ value :: rest
    ∧ value ≠ 0x0A ∧ 0x0A ∉ rest ∧ (Mode.plain.along before).shown value = []

theorem losesBreak_concat {text : Bytes} {last : UInt8}
    : LosesBreak (text ++ [last])
      ↔ (last = 0x0A ∧ (Mode.plain.along text).shown last ≠ [0x0A]) ∨ LosesBreak text :=
  exists_split_concat

theorem shortensLine_break {text : Bytes}
    : ¬ShortensLine (text ++ [0x0A]) := by
  unfold ShortensLine
  rw [exists_split_concat]
  rintro (⟨other, -⟩ | ⟨before, value, rest, -, -, none, -⟩)
  · exact other rfl
  · exact none (by simp)

theorem shortensLine_other {text : Bytes} {last : UInt8} (other : last ≠ 0x0A)
    : ShortensLine (text ++ [last])
      ↔ (Mode.plain.along text).shown last = [] ∨ ShortensLine text := by
  unfold ShortensLine
  rw [exists_split_concat]
  simp [other, other.symm]

/-- How the places after a text and after the text as it is shown compare. -/
structure Compares (text : Bytes) (shown place : Position) : Prop where
  line_le : shown.line ≤ place.line
  line_eq : shown.line = place.line ↔ ¬LosesBreak text
  column_le : shown.line = place.line → shown.column ≤ place.column
  column_eq : shown.line = place.line → (shown.column = place.column ↔ ¬ShortensLine text)

/-- What one more byte does to both places, by induction on the text from its end. -/
theorem compares_blank (text : Bytes)
    : Compares text (Position.after (blank text).bytes) (Position.after text) := by
  induction text using List.reverseRecOn with
  | nil =>
      refine ⟨Nat.le_refl _, iff_of_true rfl ?_, fun _ => Nat.le_refl _,
        fun _ => iff_of_true rfl ?_⟩
      · rintro ⟨before, value, rest, same, -⟩
        simp at same
      · rintro ⟨before, value, rest, same, -⟩
        simp at same
  | append_singleton text last ih =>
      obtain ⟨line_le, line_eq, column_le, column_eq⟩ := ih
      rw [bytes_blank_concat]
      by_cases hbreak : last = 0x0A
      case pos =>
        subst hbreak
        rw [Position.after_break]
        rcases (Mode.plain.along text).shown_break with
          ⟨shown, -⟩ | ⟨shown, -⟩ | ⟨shown, -⟩
        · rw [shown, Position.after_break]
          refine ⟨by simpa using line_le, ?_, fun _ => Nat.le_refl _, fun _ => ?_⟩
          · simp [losesBreak_concat, shown, ← line_eq]
          · exact iff_of_true rfl shortensLine_break
        · rw [shown, Position.after_other _ (by decide)]
          refine ⟨by simp only; omega, ?_, by simp only; omega, by simp only; omega⟩
          simp [losesBreak_concat, shown, space]
          omega
        · rw [shown, List.append_nil]
          refine ⟨by simp only; omega, ?_, by simp only; omega, by simp only; omega⟩
          simp [losesBreak_concat, shown]
          omega
      case neg =>
        rw [Position.after_other _ hbreak]
        rcases (Mode.plain.along text).shown_other hbreak with ⟨value, shown, other, -⟩ | ⟨shown, -⟩
        · rw [shown, Position.after_other _ other]
          refine ⟨line_le, ?_, by simpa using column_le, ?_⟩
          · simp [losesBreak_concat, hbreak, line_eq]
          · simpa [shortensLine_other hbreak, shown] using column_eq
        · rw [shown, List.append_nil]
          refine ⟨line_le, ?_, fun same => Nat.le_succ_of_le (column_le same), fun same => ?_⟩
          · simp [losesBreak_concat, hbreak, line_eq]
          · have := column_le same
            simp [shortensLine_other hbreak, shown]
            omega

/-- What displaces the places, in terms of where in the text it stands. -/
theorem displaces_iff {text : Bytes}
    : LosesBreak text ∨ ShortensLine text ↔ HidesBreak text ∨ DropsByte text := by
  constructor
  · rintro (⟨before, value, rest, same, rfl, lost⟩ | ⟨before, value, rest, same, other, last, lost⟩)
    · rcases (Mode.plain.along before).shown_break with ⟨kept, -⟩ | ⟨-, within⟩ | ⟨-, refused⟩
      · exact absurd kept lost
      · exact .inl ⟨before, rest, same, within⟩
      · exact .inr ⟨before, 0x0A, rest, same, refused, .inl rfl⟩
    · rcases (Mode.plain.along before).shown_other other with ⟨shown, kept, -⟩ | ⟨-, refused⟩
      · simp [lost] at kept
      · exact .inr ⟨before, value, rest, same, refused, .inr last⟩
  · rintro (⟨before, rest, same, within⟩ | ⟨before, value, rest, same, refused, ends⟩)
    · refine .inl ⟨before, 0x0A, rest, same, rfl, ?_⟩
      rcases within with within | within <;> rw [within] <;> decide
    · have shown : (Mode.plain.along before).shown value = [] := by rw [Mode.shown, refused]
      by_cases hbreak : value = 0x0A
      · exact .inl ⟨before, value, rest, same, hbreak, by simp [shown]⟩
      · exact .inr ⟨before, value, rest, same, hbreak, ends.resolve_left hbreak, shown⟩

/-- The places agree unless blanking loses a line break, or a byte of the last line. -/
theorem after_blank_iff (text : Bytes)
    : Position.after (blank text).bytes = Position.after text
      ↔ ¬HidesBreak text ∧ ¬DropsByte text := by
  rw [← not_or, ← displaces_iff, not_or]
  have compares := compares_blank text
  constructor
  · intro same
    have hline := congrArg Position.line same
    have hcolumn := congrArg Position.column same
    exact ⟨compares.line_eq.mp hline, (compares.column_eq hline).mp hcolumn⟩
  · rintro ⟨keeps, whole⟩
    have hline := compares.line_eq.mpr keeps
    have hcolumn := (compares.column_eq hline).mpr whole
    exact Position.eq_of_parts hline hcolumn

-----------------------------------------------------------------------------------------
-- The byte at which the reader stopped
-----------------------------------------------------------------------------------------

/-- No byte is left out. -/
def ShowsAll (text : Bytes) : Prop :=
  ∀ before value rest, text = before ++ value :: rest →
    (Mode.plain.along before).step value ≠ none

theorem ShowsAll.not_dropsByte {text : Bytes} (all : ShowsAll text)
    : ¬DropsByte text := by
  rintro ⟨before, value, rest, same, refused, -⟩
  exact all before value rest same refused

/-- The last byte is not left out. -/
def ShowsLast (text : Bytes) : Prop :=
  ∀ before value, text = before ++ [value] → (Mode.plain.along before).step value ≠ none

theorem showsLast_concat (text : Bytes) {last : UInt8}
    (shown : (Mode.plain.along text).step last ≠ none)
    : ShowsLast (text ++ [last]) := by
  intro before value same
  obtain ⟨rfl, ends⟩ := List.append_inj' same rfl
  exact (List.cons.inj ends).1 ▸ shown

/-- A byte is shown by one byte, or left out. -/
theorem Mode.length_shown (mode : Mode) (value : UInt8)
    : (mode.shown value).length = if mode.step value = none then 0 else 1 := by
  unfold Mode.shown
  cases mode.step value <;> rfl

theorem length_blank_concat (text : Bytes) (last : UInt8)
    : (blank (text ++ [last])).bytes.length
      = (blank text).bytes.length
        + if (Mode.plain.along text).step last = none then 0 else 1 := by
  rw [bytes_blank_concat, List.length_append, Mode.length_shown]

/-- Blanking keeps the length when no byte is left out, by induction on the text from its end. -/
theorem length_blank {text : Bytes} (all : ShowsAll text)
    : (blank text).bytes.length = text.length := by
  induction text using List.reverseRecOn with
  | nil => rfl
  | append_singleton text last ih =>
      have before : ShowsAll text := by
        rintro before value rest rfl
        exact all before value (rest ++ [last]) (by simp)
      rw [length_blank_concat, ih before, if_neg (all text last [] rfl), List.length_append]
      rfl

/-- For every number of bytes that are shown there is a front of the text that shows so many and
ends with the last of them.
-/
theorem exists_front {text : Bytes} {given : Nat} (enough : given ≤ (blank text).bytes.length)
    : ∃ front, front <+: text ∧ (blank front).bytes.length = given ∧ ShowsLast front := by
  induction text using List.reverseRecOn with
  | nil =>
      refine ⟨[], List.prefix_rfl, ?_, fun before value same => by simp at same⟩
      exact (Nat.le_zero.mp enough).symm
  | append_singleton text last ih =>
      by_cases within : given ≤ (blank text).bytes.length
      case pos =>
        obtain ⟨front, leading, found⟩ := ih within
        exact ⟨front, leading.trans (List.prefix_append _ _), found⟩
      case neg =>
        rw [length_blank_concat] at enough
        split at enough
        case isTrue => omega
        case isFalse shown =>
          refine ⟨text ++ [last], List.prefix_rfl, ?_, showsLast_concat text shown⟩
          rw [length_blank_concat, if_neg shown]
          omega

/-- Before the first failed read no more bytes are ahead than stand before the byte it is at. -/
theorem ahead_blankFrom_le (mode : Mode) {before rest : Bytes} {value : UInt8}
    (refused : (mode.along before).step value = none)
    : (blankFrom mode (before ++ value :: rest)).ahead true
      ≤ (blankFrom mode before).bytes.length := by
  induction before generalizing mode with
  | nil =>
      change mode.step value = none at refused
      simp [blankFrom, refused, Feed.ahead]
  | cons first before ih =>
      have hnext : (blankFrom (mode.next first) (before ++ value :: rest)).ahead true
          ≤ (blankFrom (mode.next first) before).bytes.length := ih _ refused
      unfold Mode.next at hnext
      simp only [List.cons_append, blankFrom]
      split
      case h_1 shown next found =>
        simp only [found] at hnext
        simpa [Feed.ahead, Feed.bytes] using hnext
      case h_2 => simp [Feed.ahead]

/-- A front that the reader was given without a failed read shows all its bytes. -/
theorem showsAll_of_ahead {front text : Bytes} (leading : front <+: text) (last : ShowsLast front)
    (within : (blank front).bytes.length ≤ (blank text).ahead true)
    : ShowsAll front := by
  rintro before value rest same refused
  obtain ⟨back, rfl⟩ := leading
  have hbefore : (blank (front ++ back)).ahead true ≤ (blank before).bytes.length := by
    rw [same, List.append_assoc, List.cons_append]
    exact ahead_blankFrom_le .plain refused
  rcases List.eq_nil_or_concat rest with rfl | ⟨init, final, rfl⟩
  · exact last before value same refused
  · rw [List.concat_eq_append, ← List.cons_append, ← List.append_assoc] at same
    have hlength := length_blank_concat (before ++ value :: init) final
    rw [← same, if_neg (last _ _ same), bytes_blank_append, List.length_append] at hlength
    omega

/-- The reader refused the text when it had been given the bytes that a front of it shows, the
last byte of the front among them.
-/
structure StoppedAfter (text : Bytes) (refusal : Refusal) (front : Bytes) : Prop where
  leading : front <+: text
  refused : ∃ reached, Reading.document ⟨blank text, 0, false⟩
    = .error ⟨refusal, some (blank front).bytes.length⟩ reached
  last : ShowsLast front

end Comments

open Comments

/-- What a place that is reported tells about the front of the text at which the reader stopped. -/
structure Locates (refusal : Refusal) (position : Position) (front : Bytes) : Prop where
  /-- The place is counted in the text with its comments blanked. -/
  shown : position = Position.after (blank front).bytes
  /-- Unless a read failed, every byte of the text has its own among those that are shown. -/
  whole : refusal ≠ .unreadable → ShowsAll front ∧ (blank front).bytes.length = front.length
  /-- The place is the one in the text itself, or blanking has displaced it. -/
  exact_iff : position = Position.after front ↔ ¬HidesBreak front ∧ ¬DropsByte front
  /-- Unless a read failed, nothing but a line break in a block comment displaces it. -/
  exact_of_readable : refusal ≠ .unreadable →
    (position = Position.after front ↔ ¬HidesBreak front)

theorem fault_of_ofCommented {text : Bytes} {refusal : Refusal} {position : Position}
    (refused : ofCommented text = .error ⟨refusal, some position⟩)
    : ∃ given reached,
        Reading.document ⟨blank text, 0, false⟩ = .error ⟨refusal, some given⟩ reached
        ∧ position = Position.after ((blank text).bytes.take given) := by
  unfold ofCommented ofFeed at refused
  split at refused
  case h_1 => cases refused
  case h_2 fault reached found =>
    obtain ⟨rfl, place⟩ := ReadError.mk.inj (Except.error.inj refused)
    obtain ⟨given, noted, rfl⟩ := Option.map_eq_some_iff.mp place
    exact ⟨given, reached, by rw [found, ← noted], rfl⟩

/-- The reader stops at a byte of the text, and the place that is reported is the one of that byte
in the text with its comments blanked; in the text itself it is the same unless blanking has lost
a line break or, before a failed read, a byte of the last line. Witness: the reader counts no more
bytes than there are, so some front of the text shows as many.
-/
theorem locates_of_ofCommented {text : Bytes} {refusal : Refusal} {position : Position}
    (refused : ofCommented text = .error ⟨refusal, some position⟩)
    : (∃ front, StoppedAfter text refusal front)
      ∧ ∀ front, StoppedAfter text refusal front → Locates refusal position front := by
  obtain ⟨given, reached, found, rfl⟩ := fault_of_ofCommented refused
  obtain ⟨enough, unbroken⟩ := Reading.given_le_of_refused found rfl
  constructor
  · obtain ⟨front, leading, length, last⟩ := exists_front enough
    exact ⟨front, leading, ⟨reached, length ▸ found⟩, last⟩
  · rintro front ⟨leading, ⟨other, again⟩, last⟩
    obtain rfl : given = (blank front).bytes.length := by
      rw [found] at again
      exact Option.some.inj (Fault.mk.inj (EStateM.Result.error.inj again).1).2
    have shown : (blank text).bytes.take (blank front).bytes.length = (blank front).bytes := by
      obtain ⟨back, rfl⟩ := leading
      rw [bytes_blank_append, List.take_left]
    rw [shown]
    have all (readable : refusal ≠ .unreadable) : ShowsAll front :=
      showsAll_of_ahead leading last (unbroken readable)
    refine ⟨rfl, fun readable => ⟨all readable, length_blank (all readable)⟩,
      after_blank_iff front, fun readable => ?_⟩
    rw [after_blank_iff, and_iff_left (all readable).not_dropsByte]

end RouteDesk.Json
