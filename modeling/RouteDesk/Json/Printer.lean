import RouteDesk.Json.Value
import RouteDesk.Json.Decimal
import RouteDesk.Text.Bytes

/-! Writing JSON: two spaces for every level, one field or item a line, and nothing inside
empty containers.
-/

namespace RouteDesk.Json

/-- A lower-case hexadecimal digit. -/
def hexDigit (value : UInt8) : UInt8 :=
  if value < 10 then 0x30 + value else 0x57 + value

/-- A byte of a string as it is written. -/
def escapeByte (value : UInt8) : Bytes :=
  match value with
  | 0x22 => [0x5C, 0x22]
  | 0x5C => [0x5C, 0x5C]
  | 0x08 => [0x5C, 0x62]
  | 0x0C => [0x5C, 0x66]
  | 0x0A => [0x5C, 0x6E]
  | 0x0D => [0x5C, 0x72]
  | 0x09 => [0x5C, 0x74]
  | _ =>
    if value < 0x20
    then [0x5C, 0x75, 0x30, 0x30, hexDigit (value / 16), hexDigit (value % 16)]
    else [value]

/-- A string as it is written. -/
def writeText (text : String) : Bytes :=
  0x22 :: (Bytes.ofText text).flatMap escapeByte ++ [0x22]

/-- The decimal digits of a number. -/
def writeNat (value : Nat) : Bytes :=
  (Nat.toDigits 10 value).map fun digit => digit.toNat.toUInt8

/-- An integer as it is written. -/
def writeInteger : Int → Bytes
  | .ofNat value => writeNat value
  | .negSucc value => 0x2D :: writeNat (value + 1)

/-- A new line at a level. -/
def newLine (level : Nat) : Bytes :=
  0x0A :: List.replicate (2 * level) 0x20

mutual

/-- A document as it is written, at a level. -/
def write (level : Nat) : Json → Bytes
  | .null => [0x6E, 0x75, 0x6C, 0x6C]
  | .bool true => [0x74, 0x72, 0x75, 0x65]
  | .bool false => [0x66, 0x61, 0x6C, 0x73, 0x65]
  | .integer value => writeInteger value
  | .real value => Bytes.ofText (Decimal.ofFloat value)
  | .text value => writeText value
  | .list [] => [0x5B, 0x5D]
  | .list (item :: rest) =>
    0x5B :: newLine (level + 1) ++ write (level + 1) item ++ writeItems (level + 1) rest
      ++ newLine level ++ [0x5D]
  | .object [] => [0x7B, 0x7D]
  | .object ((name, value) :: rest) =>
    0x7B :: newLine (level + 1) ++ writeText name ++ [0x3A, 0x20] ++ write (level + 1) value
      ++ writeFields (level + 1) rest ++ newLine level ++ [0x7D]

/-- The items after the first one. -/
def writeItems (level : Nat) : List Json → Bytes
  | [] => []
  | item :: rest => 0x2C :: newLine level ++ write level item ++ writeItems level rest

/-- The fields after the first one. -/
def writeFields (level : Nat) : List (String × Json) → Bytes
  | [] => []
  | (name, value) :: rest =>
    0x2C :: newLine level ++ writeText name ++ [0x3A, 0x20] ++ write level value
      ++ writeFields level rest

end

/-- A document as the content of a file. -/
def render (document : Json) : Bytes :=
  write 0 document ++ [0x0A]

end RouteDesk.Json
