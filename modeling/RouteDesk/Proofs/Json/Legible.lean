import RouteDesk.Proofs.Json.RoundTrip

/-! A written document as the content of a file: its bytes are text, and the blanking of comments
leaves them as they are, also where a string holds what would begin a comment elsewhere.
-/

namespace RouteDesk

-----------------------------------------------------------------------------------------
-- Text
-----------------------------------------------------------------------------------------

namespace Bytes

/-- The bytes are the UTF-8 form of some text. -/
def IsText (bytes : Bytes) : Prop :=
  ∃ text, ofText text = bytes

theorem ofText_ofList (chars : List Char)
    : ofText (String.ofList chars) = chars.flatMap String.utf8EncodeChar := by
  simp [ofText, String.toByteArray_ofList, List.utf8Encode]

theorem IsText.append {front back : Bytes} (first : IsText front) (second : IsText back)
    : IsText (front ++ back) := by
  obtain ⟨left, rfl⟩ := first
  obtain ⟨right, rfl⟩ := second
  exact ⟨left ++ right, ofText_append left right⟩

theorem val_ofNat_ascii
    : ∀ code < 128, (Char.ofNat code).val.toNat = code := by
  decide +kernel

/-- ASCII is text, byte by byte. -/
theorem IsText.of_ascii {bytes : Bytes} (ascii : ∀ byte ∈ bytes, byte < 0x80)
    : IsText bytes := by
  induction bytes with
  | nil => exact ⟨"", rfl⟩
  | cons byte rest ih =>
      obtain ⟨small, later⟩ := List.forall_mem_cons.mp ascii
      have head : IsText [byte] := by
        have below : byte.toNat < 128 := UInt8.lt_iff_toNat_lt.mp small
        refine ⟨String.ofList [Char.ofNat byte.toNat], ?_⟩
        have same := val_ofNat_ascii byte.toNat below
        rw [ofText_ofList, List.flatMap_singleton, String.utf8EncodeChar, same, if_pos (by omega)]
        simp
      exact head.append (ih later)

/-- Outside ASCII every byte of a character is. -/
theorem le_of_mem_utf8EncodeChar {char : Char} (wide : 128 ≤ char.val.toNat) {byte : UInt8}
    (member : byte ∈ String.utf8EncodeChar char)
    : 0x80 ≤ byte.toNat := by
  unfold String.utf8EncodeChar at member
  dsimp only at member
  rw [if_neg (by omega)] at member
  split at member
  · simp only [List.mem_cons, List.not_mem_nil, or_false] at member
    rcases member with rfl | rfl <;> simp only [UInt8.toNat_ofNat'] <;> omega
  · split at member
    · simp only [List.mem_cons, List.not_mem_nil, or_false] at member
      rcases member with rfl | rfl | rfl <;> simp only [UInt8.toNat_ofNat'] <;> omega
    · simp only [List.mem_cons, List.not_mem_nil, or_false] at member
      rcases member with rfl | rfl | rfl | rfl <;> simp only [UInt8.toNat_ofNat'] <;> omega

end Bytes

namespace Json

theorem ascii_escapeByte
    : ∀ code < 128, ∀ byte ∈ escapeByte code.toUInt8, byte < 0x80 := by
  decide +kernel

theorem escapeByte_of_le {byte : UInt8} (wide : 0x80 ≤ byte.toNat)
    : escapeByte byte = [byte] := by
  unfold escapeByte
  split
  case h_8 =>
    rw [if_neg]
    rw [UInt8.lt_iff_toNat_lt]
    change ¬ byte.toNat < 32
    omega
  all_goals exact absurd wide (by decide)

/-- The escaped bytes of a text are text: escapes are ASCII, and what is not ASCII is not
escaped.
-/
theorem isText_escaped (text : String)
    : Bytes.IsText ((Bytes.ofText text).flatMap escapeByte) := by
  rw [← String.ofList_toList (s := text), Bytes.ofText_ofList]
  induction text.toList with
  | nil => exact ⟨"", rfl⟩
  | cons char chars ih =>
      rw [List.flatMap_cons, List.flatMap_append]
      refine .append ?_ ih
      by_cases wide : 128 ≤ char.val.toNat
      · have unchanged : (String.utf8EncodeChar char).flatMap escapeByte
            = String.utf8EncodeChar char := by
          conv_rhs => rw [← List.flatMap_singleton' (String.utf8EncodeChar char)]
          exact List.flatMap_congr fun byte member =>
            escapeByte_of_le (Bytes.le_of_mem_utf8EncodeChar wide member)
        exact ⟨String.ofList [char], by
          rw [unchanged, Bytes.ofText_ofList, List.flatMap_singleton]⟩
      · rw [String.utf8EncodeChar, if_pos (by omega), List.flatMap_singleton]
        exact .of_ascii (ascii_escapeByte _ (by omega))

end Json

-----------------------------------------------------------------------------------------
-- Comments
-----------------------------------------------------------------------------------------

namespace Json

theorem step_string {byte : UInt8} (notQuote : byte ≠ 0x22) (notBackslash : byte ≠ 0x5C)
    : Comments.Mode.step .string byte = some (byte, .string) := by
  unfold Comments.Mode.step
  split
  case h_5 => exact absurd rfl notQuote
  case h_6 => exact absurd rfl notBackslash
  case h_7 => rfl
  all_goals contradiction

theorem step_plain {byte : UInt8} (notQuote : byte ≠ 0x22) (notSlash : byte ≠ 0x2F)
    (notHash : byte ≠ 0x23)
    : Comments.Mode.step .plain byte = some (byte, .plain) := by
  unfold Comments.Mode.step
  split
  case h_1 => exact absurd rfl notQuote
  case h_2 => exact absurd rfl notSlash
  case h_3 => exact absurd rfl notHash
  case h_4 => rfl
  all_goals contradiction

theorem step_hexDigit
    : ∀ code < 32,
        Comments.Mode.step .string (hexDigit (code.toUInt8 / 16))
          = some (hexDigit (code.toUInt8 / 16), .string)
        ∧ Comments.Mode.step .string (hexDigit (code.toUInt8 % 16))
          = some (hexDigit (code.toUInt8 % 16), .string) := by
  decide +kernel

/-- Inside a string nothing that is written there is blanked, and the string goes on. -/
theorem blankFrom_escapeByte (byte : UInt8) (rest : Bytes)
    : Comments.blankFrom .string (escapeByte byte ++ rest)
      = Feed.after (escapeByte byte) (Comments.blankFrom .string rest) := by
  unfold escapeByte
  split
  case h_8 notQuote notBackslash _ _ _ _ _ =>
    split
    case isTrue control =>
      obtain ⟨high, low⟩ := step_hexDigit byte.toNat (UInt8.lt_iff_toNat_lt.mp control)
      have same : byte.toNat.toUInt8 = byte := UInt8.ofNat_toNat
      rw [same] at high low
      change Feed.after [0x5C, 0x75, 0x30, 0x30]
        (Comments.blankFrom .string (hexDigit (byte / 16) :: hexDigit (byte % 16) :: rest)) = _
      rw [Comments.blankFrom, high]
      dsimp only
      rw [Comments.blankFrom, low]
      rfl
    case isFalse =>
      rw [List.singleton_append, Comments.blankFrom, step_string notQuote notBackslash]
      rfl
  all_goals rfl

theorem blankFrom_escaped (bytes rest : Bytes)
    : Comments.blankFrom .string (bytes.flatMap escapeByte ++ rest)
      = Feed.after (bytes.flatMap escapeByte) (Comments.blankFrom .string rest) := by
  induction bytes with
  | nil => rfl
  | cons byte bytes ih =>
      rw [List.flatMap_cons, List.append_assoc, blankFrom_escapeByte, ih, Feed.after_append]

/-- Bytes that can stand in a file and outside of strings: they are text, and no comment begins
among them.
-/
structure Legible (bytes : Bytes) : Prop where
  text : Bytes.IsText bytes
  kept (rest : Bytes) : Comments.blankFrom .plain (bytes ++ rest)
    = Feed.after bytes (Comments.blankFrom .plain rest)

theorem isPlain_of_isDigit {byte : UInt8} (digit : Reading.isDigit byte = true)
    : IsPlain byte := by
  refine ⟨?_, ?_, ?_, ?_⟩
  · simp only [Reading.isDigit, Bool.and_eq_true, decide_eq_true_eq] at digit
    exact UInt8.lt_of_le_of_lt digit.2 (by decide)
  all_goals
    rintro rfl
    exact absurd digit (by decide)

namespace Legible

theorem append {front back : Bytes} (first : Legible front) (second : Legible back)
    : Legible (front ++ back) where
  text := first.text.append second.text
  kept rest := by rw [List.append_assoc, first.kept, second.kept, Feed.after_append]

theorem of_plain {bytes : Bytes} (plain : ∀ byte ∈ bytes, IsPlain byte)
    : Legible bytes where
  text := .of_ascii fun byte member => (plain byte member).1
  kept rest := by
    induction bytes with
    | nil => rfl
    | cons byte bytes ih =>
        obtain ⟨⟨-, notQuote, notSlash, notHash⟩, later⟩ := List.forall_mem_cons.mp plain
        rw [List.cons_append, Comments.blankFrom, step_plain notQuote notSlash notHash]
        dsimp only
        rw [ih later, Feed.after_cons]

theorem cons {byte : UInt8} (plain : IsPlain byte) {bytes : Bytes} (legible : Legible bytes)
    : Legible (byte :: bytes) :=
  append (of_plain (List.forall_mem_singleton.mpr plain)) legible

/-- A string is legible whatever it holds. -/
theorem writeText (text : String)
    : Legible (Json.writeText text) where
  text := by
    have quote : Bytes.IsText [0x22] := .of_ascii (by decide +kernel)
    exact (quote.append (isText_escaped text)).append quote
  kept rest := by
    change Feed.byte 0x22 (Comments.blankFrom .string
        ((Bytes.ofText text).flatMap escapeByte ++ [0x22] ++ rest))
      = Feed.byte 0x22 (Feed.after ((Bytes.ofText text).flatMap escapeByte ++ [0x22]) _)
    rw [List.append_assoc, blankFrom_escaped, Feed.after_append]
    rfl

theorem writeNat (number : Nat)
    : Legible (Json.writeNat number) := by
  refine of_plain fun byte member => ?_
  obtain ⟨char, among, rfl⟩ := List.mem_map.mp member
  have digit := Nat.isDigit_of_mem_toDigits (by decide) (by decide) among
  exact isPlain_of_isDigit (Reading.isDigit_byteOf digit)

theorem newLine (level : Nat)
    : Legible (Json.newLine level) := by
  refine of_plain fun byte member => ?_
  rcases List.mem_cons.mp member with rfl | member
  · decide
  · rw [List.eq_of_mem_replicate member]
    decide

section Containers

variable {level : Nat}

theorem writeItems {items : List Json}
    (each : ∀ item ∈ items, Legible (Json.write level item))
    : Legible (Json.writeItems level items) := by
  induction items with
  | nil => exact of_plain (by simp [Json.writeItems])
  | cons item later ih =>
      obtain ⟨first, others⟩ := List.forall_mem_cons.mp each
      exact ((cons (by decide) (newLine level)).append first).append (ih others)

theorem field {name : String} {document : Json} (value : Legible (Json.write level document))
    : Legible (Json.writeText name ++ [0x3A, 0x20] ++ Json.write level document) :=
  ((writeText name).append (of_plain (by decide +kernel))).append value

theorem writeFields {fields : Fields}
    (each : ∀ field ∈ fields, Legible (Json.write level field.2))
    : Legible (Json.writeFields level fields) := by
  induction fields with
  | nil => exact of_plain (by simp [Json.writeFields])
  | cons item later ih =>
      obtain ⟨name, document⟩ := item
      obtain ⟨first, others⟩ := List.forall_mem_cons.mp each
      have comma : Legible (0x2C :: Json.newLine level) := cons (by decide) (newLine level)
      have head := comma.append (@field level name document first)
      have split : Json.writeFields level ((name, document) :: later)
          = 0x2C :: Json.newLine level
              ++ (Json.writeText name ++ [0x3A, 0x20] ++ Json.write level document)
              ++ Json.writeFields level later := by
        simp [Json.writeFields]
      exact split ▸ head.append (ih others)

end Containers

/-- Every written document is legible, by induction on it. -/
theorem write {fine : Float → Prop} {again : Float → Float}
    (rereads : ∀ value, fine value → Rereads value (again value))
    {levels : Nat} {document : Json} (within : Within fine levels document) (level : Nat)
    : Legible (Json.write level document) := by
  have bracket (byte : UInt8) (plain : IsPlain byte) : Legible [byte] :=
    of_plain (List.forall_mem_singleton.mpr plain)
  induction within generalizing level with
  | null => exact of_plain (by simp only [Json.write]; decide +kernel)
  | bool value => cases value <;> exact of_plain (by simp only [Json.write]; decide +kernel)
  | integer =>
      rename_i value _ _
      cases value with
      | ofNat number => exact writeNat number
      | negSucc number => exact cons (by decide) (writeNat (number + 1))
  | real allowed => exact of_plain (rereads _ allowed).plain
  | text value => exact writeText value
  | list all ih =>
      rename_i items
      cases items with
      | nil => exact of_plain (by simp only [Json.write]; decide +kernel)
      | cons item later =>
          obtain ⟨first, others⟩ := List.forall_mem_cons.mp ih
          have inside := writeItems fun item member => others item member (level + 1)
          have opening : Legible (0x5B :: Json.newLine (level + 1)) :=
            cons (by decide) (newLine (level + 1))
          exact (((opening.append (first (level + 1))).append inside).append
            (newLine level)).append (bracket 0x5D (by decide))
  | object ascending all ih =>
      rename_i fields
      cases fields with
      | nil => exact of_plain (by simp only [Json.write]; decide +kernel)
      | cons item later =>
          obtain ⟨name, document⟩ := item
          obtain ⟨first, others⟩ := List.forall_mem_cons.mp ih
          have inside := writeFields fun item member => others item member (level + 1)
          have opening : Legible (0x7B :: Json.newLine (level + 1)
              ++ (Json.writeText name ++ [0x3A, 0x20] ++ Json.write (level + 1) document)) :=
            (cons (by decide) (newLine (level + 1))).append (field (first (level + 1)))
          have split : Json.write level (.object ((name, document) :: later))
              = 0x7B :: Json.newLine (level + 1)
                  ++ (Json.writeText name ++ [0x3A, 0x20] ++ Json.write (level + 1) document)
                  ++ Json.writeFields (level + 1) later ++ Json.newLine level ++ [0x7D] := by
            simp [Json.write]
          exact split ▸
            ((opening.append inside).append (newLine level)).append (bracket 0x7D (by decide))

theorem render {fine : Float → Prop} {again : Float → Float}
    (rereads : ∀ value, fine value → Rereads value (again value))
    {levels : Nat} {document : Json} (within : Within fine levels document)
    : Legible document.render :=
  (write rereads within 0).append (of_plain (by decide +kernel))

end Legible

/-- Reading a rendered document past its comments finds no comments. -/
theorem ofCommented_render {fine : Float → Prop} {again : Float → Float}
    (rereads : ∀ value, fine value → Rereads value (again value)) {document : Json}
    (within : Within fine Reading.depthLimit document)
    : ofCommented document.render = .ok (document.onReals again) := by
  have kept := (Legible.render rereads within).kept []
  rw [List.append_nil] at kept
  rw [ofCommented, Comments.blank, kept]
  exact ofFeed_render rereads within

end Json

end RouteDesk
