import RouteDesk.Text.Bytes

/-! Comments in a document. They are blanked byte by byte while the document is read, so the
reader sees plain JSON in which every byte keeps its place. What is neither inside a string
nor a comment passes unchanged.
-/

namespace RouteDesk.Json

/-- What a reader gets to see, byte by byte. -/
inductive Feed where
  /-- The text is over. -/
  | done
  /-- The text is over inside a string or a comment: every further read fails. -/
  | cut
  /-- The next byte. -/
  | byte (value : UInt8) (rest : Feed)
  /-- One read fails, at a slash that begins no comment. -/
  | fault (rest : Feed)
deriving DecidableEq

namespace Feed

/-- The feed of text that is shown as it is. -/
def ofBytes : Bytes → Feed
  | [] => .done
  | value :: rest => .byte value (ofBytes rest)

/-- The bytes that a reader gets, failed reads left out. -/
def bytes : Feed → Bytes
  | .done => []
  | .cut => []
  | .byte value rest => value :: rest.bytes
  | .fault rest => rest.bytes

/-- The number of bytes and failed reads ahead. -/
def size : Feed → Nat
  | .done => 0
  | .cut => 0
  | .byte _ rest => rest.size + 1
  | .fault rest => rest.size + 1

end Feed

namespace Comments

/-- Where in a text the blanking of comments stands. -/
inductive Mode where
  | plain
  | string
  | escape
  | slash
  | block
  | star
  | line
deriving DecidableEq

/-- Whether a text may end here. -/
def Mode.mayEnd : Mode → Bool
  | .plain | .line => true
  | _ => false

/-- A blank. -/
def space : UInt8 := 0x20

/-- What becomes of a byte, and how the text goes on; nothing if the byte cannot stand here. -/
def Mode.step : Mode → UInt8 → Option (UInt8 × Mode)
  | .plain, 0x22 => some (0x22, .string)
  | .plain, 0x2F => some (space, .slash)
  | .plain, 0x23 => some (space, .line)
  | .plain, value => some (value, .plain)
  | .string, 0x22 => some (0x22, .plain)
  | .string, 0x5C => some (0x5C, .escape)
  | .string, value => some (value, .string)
  | .escape, value => some (value, .string)
  | .slash, 0x2A => some (space, .block)
  | .slash, 0x2F => some (space, .line)
  | .slash, _ => none
  | .block, 0x2A => some (space, .star)
  | .block, _ => some (space, .block)
  | .star, 0x2F => some (space, .plain)
  | .star, 0x2A => some (space, .star)
  | .star, _ => some (space, .block)
  | .line, 0x0A => some (0x0A, .plain)
  | .line, _ => some (space, .line)

/-- The text from here on with its comments blanked. -/
def blankFrom (mode : Mode) : Bytes → Feed
  | [] => if mode.mayEnd then .done else .cut
  | value :: rest =>
    match mode.step value with
    | some (shown, next) => .byte shown (blankFrom next rest)
    | none => .fault (blankFrom mode rest)

/-- A text with its comments blanked. -/
def blank (text : Bytes) : Feed :=
  blankFrom .plain text

end Comments

end RouteDesk.Json
