import RouteDesk.Json.Value
import RouteDesk.Json.Decimal
import RouteDesk.Json.Comments

/-! Reading JSON. The reader looks one byte ahead, remembers how many bytes it was given, and
reports that count with everything it refuses. Objects keep the last of several values for a
name, and containers nest at most 127 deep.
-/

namespace RouteDesk.Json

/-- Why a text is refused. -/
inductive Refusal where
  | endInList
  | endInObject
  | endInString
  | endInValue
  | expectedColon
  | expectedListEnd
  | expectedObjectEnd
  | expectedWord
  | expectedValue
  | invalidEscape
  | invalidNumber
  | outOfRange
  | invalidCodePoint
  | controlCharacter
  | expectedKey
  | loneSurrogate
  | trailingComma
  | trailingCharacters
  | unfinishedPair
  | tooDeep
  /-- The text cannot be read here, because it ends too early or holds a lone slash. -/
  | unreadable
deriving DecidableEq

/-- The text of a refusal. -/
def Refusal.message : Refusal → String
  | .endInList => "EOF while parsing a list"
  | .endInObject => "EOF while parsing an object"
  | .endInString => "EOF while parsing a string"
  | .endInValue => "EOF while parsing a value"
  | .expectedColon => "expected `:`"
  | .expectedListEnd => "expected `,` or `]`"
  | .expectedObjectEnd => "expected `,` or `\x7d`"
  | .expectedWord => "expected ident"
  | .expectedValue => "expected value"
  | .invalidEscape => "invalid escape"
  | .invalidNumber => "invalid number"
  | .outOfRange => "number out of range"
  | .invalidCodePoint => "invalid unicode code point"
  | .controlCharacter => "control character (\\u0000-\\u001F) found while parsing a string"
  | .expectedKey => "key must be a string"
  | .loneSurrogate => "lone leading surrogate in hex escape"
  | .trailingComma => "trailing comma"
  | .trailingCharacters => "trailing characters"
  | .unfinishedPair => "unexpected end of hex escape"
  | .tooDeep => "recursion limit exceeded"
  | .unreadable => "invalid data"

/-- A refusal, and the number of bytes the reader had been given, if it was noted. -/
structure Fault where
  refusal : Refusal
  given : Option Nat
deriving DecidableEq

/-- A reader's place in a text. -/
structure Cursor where
  /-- What is still to be read, a byte that was only looked at included. -/
  feed : Feed
  /-- The number of bytes read. -/
  taken : Nat
  /-- Whether the next byte was looked at. -/
  peeked : Bool
deriving DecidableEq

/-- The number of bytes that the reader was given, one looked at included. -/
def Cursor.given (cursor : Cursor) : Nat :=
  cursor.taken + cursor.peeked.toNat

/-- A step of reading: a result, or a fault, and the place reached. -/
abbrev Reading := EStateM Fault Cursor

namespace Reading

/-- Refuses the text at the place reached. -/
def refuse {α : Type} (refusal : Refusal) : Reading α := fun cursor =>
  .error ⟨refusal, some cursor.given⟩ cursor

/-- The next byte, which stays to be read; nothing at the end. -/
def peek : Reading (Option UInt8) := fun cursor =>
  match cursor.feed with
  | .byte value _ => .ok (some value) { cursor with peeked := true }
  | .done => .ok none { cursor with peeked := false }
  | .cut => .error ⟨.unreadable, none⟩ { cursor with peeked := false }
  | .fault rest => .error ⟨.unreadable, none⟩ { cursor with feed := rest, peeked := false }

/-- Reads the next byte; nothing at the end. -/
def take : Reading (Option UInt8) := fun cursor =>
  match cursor.feed with
  | .byte value rest => .ok (some value) ⟨rest, cursor.taken + 1, false⟩
  | .done => .ok none { cursor with peeked := false }
  | .cut => .error ⟨.unreadable, none⟩ { cursor with peeked := false }
  | .fault rest => .error ⟨.unreadable, none⟩ { cursor with feed := rest, peeked := false }

/-- Reads the byte that was looked at. -/
def skip : Reading Unit := do
  let _ ← take

/-- Reads the next byte, and refuses the text if there is none. -/
def takeOr (refusal : Refusal) : Reading UInt8 := do
  match ← take with
  | some value => pure value
  | none => refuse refusal

/-- A number of bytes that exceeds what is left, as a bound for loops. -/
def bound : Reading Nat := fun cursor =>
  .ok (cursor.feed.size + 1) cursor

-----------------------------------------------------------------------------------------
-- Blanks
-----------------------------------------------------------------------------------------

/-- Whether the byte may stand between tokens. -/
def isBlank (value : UInt8) : Bool :=
  value == 0x20 || value == 0x0A || value == 0x09 || value == 0x0D

/-- Passes over blanks and looks at the byte after them. -/
def peekToken : Reading (Option UInt8) := fun cursor =>
  go cursor.feed cursor.taken
where
  /-- Passes over blanks, from a number of bytes already read. -/
  go : Feed → Nat → EStateM.Result Fault Cursor (Option UInt8)
    | .byte value rest, taken =>
      if isBlank value then go rest (taken + 1)
      else .ok (some value) ⟨.byte value rest, taken, true⟩
    | .done, taken => .ok none ⟨.done, taken, false⟩
    | .cut, taken => .error ⟨.unreadable, none⟩ ⟨.cut, taken, false⟩
    | .fault rest, taken => .error ⟨.unreadable, none⟩ ⟨rest, taken, false⟩

-----------------------------------------------------------------------------------------
-- Words and strings
-----------------------------------------------------------------------------------------

/-- Reads the given bytes. -/
def word : Bytes → Reading Unit
  | [] => pure ()
  | expected :: rest => do
    let value ← takeOr .endInValue
    if value = expected then word rest else refuse .expectedWord

/-- The value of a hexadecimal digit. -/
def hexValue? (value : UInt8) : Option Nat :=
  if 0x30 ≤ value ∧ value ≤ 0x39 then some (value.toNat - 0x30)
  else if 0x41 ≤ value ∧ value ≤ 0x46 then some (value.toNat - 0x41 + 10)
  else if 0x61 ≤ value ∧ value ≤ 0x66 then some (value.toNat - 0x61 + 10)
  else none

/-- Reads four hexadecimal digits. -/
def hexUnit : Reading Nat := do
  let first ← takeOr .endInString
  let second ← takeOr .endInString
  let third ← takeOr .endInString
  let fourth ← takeOr .endInString
  match hexValue? first, hexValue? second, hexValue? third, hexValue? fourth with
  | some a, some b, some c, some d => pure (((a * 16 + b) * 16 + c) * 16 + d)
  | _, _, _, _ => refuse .invalidEscape

/-- The UTF-8 bytes of a code point. -/
def encoded (code : Nat) : Bytes :=
  String.utf8EncodeChar (Char.ofNat code)

/-- Reads a byte that has to be the given one, looking at it first. -/
def pairByte (expected : UInt8) : Reading Unit := do
  match ← peek with
  | none => refuse .endInString
  | some value =>
    skip
    if value = expected then pure () else refuse .unfinishedPair

/-- Reads the digits of a code point, or of both halves of one. -/
def codePoint : Reading Bytes := do
  let unit ← hexUnit
  if 0xDC00 ≤ unit ∧ unit ≤ 0xDFFF then refuse .loneSurrogate
  else if unit < 0xD800 ∨ 0xDBFF < unit then pure (encoded unit)
  else
    pairByte 0x5C
    pairByte 0x75
    let low ← hexUnit
    if low < 0xDC00 ∨ 0xDFFF < low then refuse .loneSurrogate
    else pure (encoded ((unit - 0xD800) * 0x400 + (low - 0xDC00) + 0x10000))

/-- Reads what stands after a backslash. -/
def escape : Reading Bytes := do
  let value ← takeOr .endInString
  match value with
  | 0x22 => pure [0x22]
  | 0x5C => pure [0x5C]
  | 0x2F => pure [0x2F]
  | 0x62 => pure [0x08]
  | 0x66 => pure [0x0C]
  | 0x6E => pure [0x0A]
  | 0x72 => pure [0x0D]
  | 0x74 => pure [0x09]
  | 0x75 => codePoint
  | _ => refuse .invalidEscape

/-- Reads a string up to its closing quote, in no more than the given number of steps;
`front` holds the bytes before it in reverse.
-/
def stringBody : Nat → Bytes → Reading Bytes
  | 0, _ => refuse .endInString
  | limit + 1, front => do
    let value ← takeOr .endInString
    if value = 0x22 then pure front.reverse
    else if value = 0x5C then
      let meant ← escape
      stringBody limit (meant.reverse ++ front)
    else if value < 0x20 then refuse .controlCharacter
    else stringBody limit (value :: front)

/-- Reads a string after its opening quote. -/
def string : Reading String := do
  let bytes ← stringBody (← bound) []
  match Bytes.toText? bytes with
  | some read => pure read
  | none => refuse .invalidCodePoint

-----------------------------------------------------------------------------------------
-- Numbers
-----------------------------------------------------------------------------------------

/-- Whether the byte is a decimal digit. -/
def isDigit (value : UInt8) : Bool :=
  0x30 ≤ value && value ≤ 0x39

/-- A run of digits read as a number. -/
structure DigitRun where
  value : Nat
  count : Nat
  /-- Whether the run goes on with a digit that the limit has no room for. -/
  full : Bool

/-- Reads digits onto a number, as long as it stays below the limit. -/
def digits (limit value : Nat) : Reading DigitRun := fun cursor =>
  go cursor.feed cursor.taken value 0
where
  /-- Reads digits onto `value`, after `count` of them. -/
  go : Feed → Nat → Nat → Nat → EStateM.Result Fault Cursor DigitRun
    | .byte byte rest, taken, value, count =>
      if isDigit byte then
        let next := value * 10 + (byte.toNat - 0x30)
        if next < limit then go rest (taken + 1) next (count + 1)
        else .ok ⟨value, count, true⟩ ⟨.byte byte rest, taken, true⟩
      else .ok ⟨value, count, false⟩ ⟨.byte byte rest, taken, true⟩
    | .done, taken, value, count => .ok ⟨value, count, false⟩ ⟨.done, taken, false⟩
    | .cut, taken, _, _ => .error ⟨.unreadable, none⟩ ⟨.cut, taken, false⟩
    | .fault rest, taken, _, _ => .error ⟨.unreadable, none⟩ ⟨rest, taken, false⟩

/-- Reads digits and counts them. -/
def skipDigits : Reading Nat := fun cursor =>
  go cursor.feed cursor.taken 0
where
  /-- Reads digits, after `count` of them. -/
  go : Feed → Nat → Nat → EStateM.Result Fault Cursor Nat
    | .byte byte rest, taken, count =>
      if isDigit byte then go rest (taken + 1) (count + 1)
      else .ok count ⟨.byte byte rest, taken, true⟩
    | .done, taken, count => .ok count ⟨.done, taken, false⟩
    | .cut, taken, _ => .error ⟨.unreadable, none⟩ ⟨.cut, taken, false⟩
    | .fault rest, taken, _ => .error ⟨.unreadable, none⟩ ⟨rest, taken, false⟩

/-- One more than the largest significand. -/
def wordLimit : Nat := UInt64.size

/-- One more than the largest exponent. -/
def exponentLimit : Nat := 0x80000000

/-- The number with this sign, significand and exponent. -/
def real (positive : Bool) (significand : Nat) (exponent : Int) : Reading Json := do
  match Decimal.scaled significand exponent with
  | some magnitude => pure (.real (if positive then magnitude else -magnitude))
  | none => refuse .outOfRange

/-- Whether the byte begins an exponent. -/
def beginsExponent (value : Option UInt8) : Bool :=
  value == some 0x65 || value == some 0x45

/-- Reads the sign of an exponent, if there is one. -/
def exponentSign : Reading Bool := do
  match ← peek with
  | some 0x2B => do skip; pure true
  | some 0x2D => do skip; pure false
  | _ => pure true

/-- Reads an exponent, from the letter that begins it. -/
def exponentPart (positive : Bool) (significand : Nat) (start : Int) : Reading Json := do
  skip
  let raising ← exponentSign
  let first ← takeOr .endInValue
  if isDigit first then
    let run ← digits exponentLimit (first.toNat - 0x30)
    if run.full then
      if significand ≠ 0 ∧ raising = true then
        skip
        refuse .outOfRange
      else
        let _ ← skipDigits
        pure (.real (if positive then 0.0 else -0.0))
    else
      real positive significand (if raising then start + run.value else start - run.value)
  else refuse .invalidNumber

/-- Reads what may follow the digits of a number that is not whole. -/
def afterDigits (positive : Bool) (significand : Nat) (exponent : Int) : Reading Json := do
  if beginsExponent (← peek) then exponentPart positive significand exponent
  else real positive significand exponent

/-- Reads a fraction, from its point. Digits that the significand has no room for are
dropped.
-/
def fractionPart (positive : Bool) (significand : Nat) (exponent : Int) : Reading Json := do
  skip
  let run ← digits wordLimit significand
  if run.full then
    let _ ← skipDigits
    afterDigits positive run.value (exponent - run.count)
  else if run.count = 0 then
    match ← peek with
    | some _ => refuse .invalidNumber
    | none => refuse .endInValue
  else afterDigits positive run.value (exponent - run.count)

/-- Reads the rest of a number whose whole part has been read. -/
def afterWhole (positive : Bool) (significand : Nat) : Reading Json := do
  match ← peek with
  | some 0x2E => fractionPart positive significand 0
  | next =>
    if beginsExponent next then exponentPart positive significand 0
    else if positive then pure (.integer significand)
    else if significand = 0 then pure (.real (-0.0))
    else if significand ≤ 0x8000000000000000 then pure (.integer (-significand))
    else pure (.real (-significand.toUInt64.toFloat))

/-- Reads the rest of a whole part that the significand has no room for. -/
def longWhole (positive : Bool) (significand : Nat) : Reading Json := do
  let more ← skipDigits
  match ← peek with
  | some 0x2E => fractionPart positive significand more
  | next =>
    if beginsExponent next then exponentPart positive significand more
    else real positive significand more

/-- Reads a number after its sign. -/
def number (positive : Bool) : Reading Json := do
  let first ← takeOr .endInValue
  if first = 0x30 then
    match ← peek with
    | some next => if isDigit next then refuse .invalidNumber else afterWhole positive 0
    | none => afterWhole positive 0
  else if isDigit first then
    let run ← digits wordLimit (first.toNat - 0x30)
    if run.full then longWhole positive run.value else afterWhole positive run.value
  else refuse .invalidNumber

-----------------------------------------------------------------------------------------
-- Lists, objects and values
-----------------------------------------------------------------------------------------

/-- Reads the items of a list, in no more than the given number of steps; `front` holds the
items before in reverse.
-/
def items (item : Reading Json) : Nat → List Json → Reading (List Json)
  | 0, _ => refuse .endInList
  | limit + 1, front => do
    match ← peekToken with
    | none => refuse .endInList
    | some 0x5D => pure front.reverse
    | some next =>
      if front.isEmpty then
        let value ← item
        items item limit (value :: front)
      else if next = 0x2C then
        skip
        match ← peekToken with
        | none => refuse .endInValue
        | some 0x5D => refuse .trailingComma
        | some _ =>
          let value ← item
          items item limit (value :: front)
      else refuse .expectedListEnd

/-- Reads the end of a list. -/
def listEnd : Reading Unit := do
  match ← peekToken with
  | none => refuse .endInList
  | some 0x5D => skip
  | some 0x2C => do
    skip
    let ended ← tryCatch (do return (← peekToken) == some 0x5D) fun _ => pure false
    if ended then refuse .trailingComma else refuse .trailingCharacters
  | some _ => refuse .trailingCharacters

/-- Looks for the opening quote of a key. -/
def keyStart (next : Option UInt8) : Reading Unit := do
  match next with
  | none => refuse .endInValue
  | some 0x22 => pure ()
  | some 0x7D => refuse .trailingComma
  | some _ => refuse .expectedKey

/-- Reads a key, from its opening quote, and the value after it. -/
def field (value : Reading Json) : Reading (String × Json) := do
  skip
  let name ← string
  match ← peekToken with
  | none => refuse .endInObject
  | some 0x3A => do
    skip
    let held ← value
    pure (name, held)
  | some _ => refuse .expectedColon

/-- Reads the fields of an object, in no more than the given number of steps; the last value
of a name counts.
-/
def fields (value : Reading Json) : Nat → Bool → Fields → Reading Fields
  | 0, _, _ => refuse .endInObject
  | limit + 1, first, held => do
    match ← peekToken with
    | none => refuse .endInObject
    | some 0x7D => pure held
    | some next =>
      if first then
        keyStart (some next)
        let (name, content) ← field value
        fields value limit false (Fields.put name content held)
      else if next = 0x2C then
        skip
        keyStart (← peekToken)
        let (name, content) ← field value
        fields value limit false (Fields.put name content held)
      else refuse .expectedObjectEnd

/-- Reads the end of an object. -/
def objectEnd : Reading Unit := do
  match ← peekToken with
  | none => refuse .endInObject
  | some 0x7D => skip
  | some 0x2C => refuse .trailingComma
  | some _ => refuse .trailingCharacters

/-- Reads the inside of a container and its end. The end is looked for even if the inside is
refused, and a failed read inside is reported at the place reached then.
-/
def enclosed {α : Type} (inside : Reading α) (ending : Reading Unit) : Reading α := fun cursor =>
  let noted (fault : Fault) (reached : Cursor) : EStateM.Result Fault Cursor α :=
    .error { fault with given := fault.given.or (some reached.given) } reached
  match inside cursor with
  | .ok value next =>
    match ending next with
    | .ok () last => .ok value last
    | .error fault last => noted fault last
  | .error fault next =>
    match ending next with
    | .ok () last | .error _ last => noted fault last

/-- Reads a value, where `inner` reads the values inside a container, if there may be any. -/
def valueWith (inner : Option (Reading Json)) : Reading Json := do
  match ← peekToken with
  | none => refuse .endInValue
  | some 0x6E => do skip; word [0x75, 0x6C, 0x6C]; pure .null
  | some 0x74 => do skip; word [0x72, 0x75, 0x65]; pure (.bool true)
  | some 0x66 => do skip; word [0x61, 0x6C, 0x73, 0x65]; pure (.bool false)
  | some 0x2D => do skip; number false
  | some 0x22 => do skip; return .text (← string)
  | some 0x5B =>
    match inner with
    | none => refuse .tooDeep
    | some item => do
      skip
      let limit ← bound
      return .list (← enclosed (items item limit []) listEnd)
  | some 0x7B =>
    match inner with
    | none => refuse .tooDeep
    | some value => do
      skip
      let limit ← bound
      return .object (← enclosed (fields value limit true []) objectEnd)
  | some next => if isDigit next then number true else refuse .expectedValue

/-- Reads a value in which containers nest no deeper than the given number. -/
def value : Nat → Reading Json
  | 0 => valueWith none
  | depth + 1 => valueWith (some (value depth))

/-- How deep containers may nest. -/
def depthLimit : Nat := 127

/-- Reads a document and the blanks after it. -/
def document : Reading Json := do
  let held ← value depthLimit
  match ← peekToken with
  | none => pure held
  | some _ => refuse .trailingCharacters

end Reading

-----------------------------------------------------------------------------------------
-- Documents and positions
-----------------------------------------------------------------------------------------

/-- A place in a text: lines count from one, columns count the bytes since the line break. -/
structure Position where
  line : Nat
  column : Nat
deriving DecidableEq

/-- The place after these bytes. -/
def Position.after (bytes : Bytes) : Position :=
  bytes.foldl (fun place value =>
    if value = 0x0A then ⟨place.line + 1, 0⟩ else ⟨place.line, place.column + 1⟩) ⟨1, 0⟩

/-- Why a text holds no document, and the place of the last byte the reader was given. -/
structure ReadError where
  refusal : Refusal
  position : Option Position
deriving DecidableEq

/-- The text of an error, with its place if it has one. -/
def ReadError.message (error : ReadError) : String :=
  match error.position with
  | none => error.refusal.message
  | some ⟨line, column⟩ => s!"{error.refusal.message} at line {line} column {column}"

/-- The document that a feed holds. -/
def ofFeed (feed : Feed) : Except ReadError Json :=
  match Reading.document ⟨feed, 0, false⟩ with
  | .ok document _ => .ok document
  | .error fault _ =>
    .error ⟨fault.refusal, fault.given.map fun given => Position.after (feed.bytes.take given)⟩

/-- The document that a text with comments holds. -/
def ofCommented (text : Bytes) : Except ReadError Json :=
  ofFeed (Comments.blank text)

end RouteDesk.Json
