/-! Raw bytes and the texts they hold: UTF-8 writing, strict reading, and reading that puts
a replacement character wherever the bytes are malformed. Strict reading undoes writing.
-/

namespace RouteDesk

/-- Raw bytes, as files, paths and process arguments hold them. -/
abbrev Bytes := List UInt8

namespace Bytes

/-- The UTF-8 form of a text. -/
def ofText (text : String) : Bytes :=
  text.toByteArray.data.toList

/-- The text whose UTF-8 form these bytes are, if they are well formed. -/
def toText? (bytes : Bytes) : Option String :=
  String.fromUTF8? ⟨bytes.toArray⟩

/-- Reading what was written gives the text back. -/
theorem toText?_ofText (text : String)
    : toText? (ofText text) = some text := by
  have whole : (⟨(ofText text).toArray⟩ : ByteArray) = text.toByteArray := by
    simp [ofText]
  rw [toText?, whole, String.fromUTF8?, dif_pos text.isValidUTF8]
  rfl

/-- Texts with the same bytes are the same text. -/
theorem ofText_injective {first second : String} (same : ofText first = ofText second)
    : first = second := by
  have read := congrArg toText? same
  simpa only [toText?_ofText, Option.some.injEq] using read

/-- The bytes of two texts in a row are the bytes of their concatenation. -/
theorem ofText_append (first second : String)
    : ofText (first ++ second) = ofText first ++ ofText second := by
  simp [ofText, String.toByteArray_append]

-----------------------------------------------------------------------------------------
-- Reading malformed text
-----------------------------------------------------------------------------------------

/-- The continuation bytes a lead byte calls for, each as an inclusive range; no answer
for a byte that begins no character. -/
def followers (lead : UInt8) : Option (List (UInt8 × UInt8)) :=
  if lead < 0x80 then some []
  else if lead < 0xC2 then none
  else if lead < 0xE0 then some [(0x80, 0xBF)]
  else if lead = 0xE0 then some [(0xA0, 0xBF), (0x80, 0xBF)]
  else if lead = 0xED then some [(0x80, 0x9F), (0x80, 0xBF)]
  else if lead < 0xF0 then some [(0x80, 0xBF), (0x80, 0xBF)]
  else if lead = 0xF0 then some [(0x90, 0xBF), (0x80, 0xBF), (0x80, 0xBF)]
  else if lead < 0xF4 then some [(0x80, 0xBF), (0x80, 0xBF), (0x80, 0xBF)]
  else if lead = 0xF4 then some [(0x80, 0x8F), (0x80, 0xBF), (0x80, 0xBF)]
  else none

/-- The longest run of bytes that stays within the given ranges, position by position. -/
def fitting : List (UInt8 × UInt8) → Bytes → Bytes
  | (low, high) :: ranges, byte :: rest =>
    if low ≤ byte ∧ byte ≤ high then byte :: fitting ranges rest else []
  | _, _ => []

/-- The character that a lead byte and all its continuation bytes stand for. -/
def decodeChar (lead : UInt8) (tail : Bytes) : Char :=
  let bits := match tail.length with
    | 0 => lead.toNat
    | 1 => lead.toNat % 0x20
    | 2 => lead.toNat % 0x10
    | _ => lead.toNat % 0x08
  Char.ofNat (tail.foldl (fun code byte => code * 0x40 + byte.toNat % 0x40) bits)

/-- The characters of the bytes, where every longest piece that begins a character without
completing it, and every byte that begins none, is replaced by one U+FFFD. -/
def lossyChars : Bytes → List Char
  | [] => []
  | lead :: rest =>
    match followers lead with
    | none => '\uFFFD' :: lossyChars rest
    | some ranges =>
      let tail := fitting ranges rest
      let char := if tail.length = ranges.length then decodeChar lead tail else '\uFFFD'
      char :: lossyChars (rest.drop tail.length)
termination_by bytes => bytes.length
decreasing_by
  · simp
  · simp only [List.length_drop, List.length_cons]; omega

/-- The text of the bytes, with U+FFFD in place of whatever is malformed. -/
def toTextLossy (bytes : Bytes) : String :=
  match toText? bytes with
  | some text => text
  | none => String.ofList (lossyChars bytes)

end Bytes

end RouteDesk
