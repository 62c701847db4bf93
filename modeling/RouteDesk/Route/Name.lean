import RouteDesk.Route.Dialect
import RouteDesk.FileTree.Walk
import RouteDesk.Text.Blank
import RouteDesk.Text.UpperCase

/-! Which names a new route may have. A name is refused with the first of six rules that it
breaks; nothing but the tree is looked at, and the tree is not changed.
-/

namespace RouteDesk

/-- Why a name is refused. -/
inductive NameError where
  | nothingGiven
  | withExtension
  | taken (fileName : String)
  | notPortable (name : String)
  | containsBlank
  | smallInitial
deriving DecidableEq

/-- What the user is told about a refused name. -/
def NameError.message : NameError → String
  | .nothingGiven => "Please provide a name for the new file (without extension)."
  | .withExtension => "Please provide a name without the extension."
  | .taken fileName => s!"File {fileName} already exists."
  | .notPortable name =>
    s!"The file name `{name}` contains characters that are not allowed in a file name."
  | .containsBlank => "The Java file name must not contain whitespace."
  | .smallInitial => "The Java file name must start with an upper case letter."

namespace RouteName

/-- The most bytes that a portable file name has. -/
def lengthLimit : Nat := 255

/-- Characters that some system refuses in file names. -/
def illegal : List Char :=
  ['<', '>', ':', '"', '/', '\\', '|', '?', '*']

/-- Names that some system keeps for devices. -/
def reserved : List String :=
  ["CON", "PRN", "AUX", "NUL", "COM1", "COM2", "COM3", "COM4", "COM5", "COM6", "COM7", "COM8",
   "COM9", "LPT1", "LPT2", "LPT3", "LPT4", "LPT5", "LPT6", "LPT7", "LPT8", "LPT9"]

/-- Whether the character is a control character of ASCII. -/
def isControl (char : Char) : Bool :=
  char.toNat < 0x20 || char.toNat == 0x7F

/-- Whether the name is reserved, whatever the case of its letters. -/
def isReserved (name : String) : Bool :=
  reserved.any fun device => device.toList == name.toList.map Char.toUpper

/-- Whether every common system takes this as the name of a file. -/
def isPortable (name : String) : Bool :=
  name != "" && (Bytes.ofText name).length ≤ lengthLimit && name != "." && name != ".."
    && !(name.toList.any fun char => illegal.contains char || isControl char)
    && !isReserved name

/-- Whether the name starts with an upper-case character. -/
def startsUpperCase (name : String) : Bool :=
  match name.toList with
  | [] => false
  | char :: _ => Text.isUpperCase char

/-- Checks a name for a new route against the rules, in order. -/
def check (tree : FileTree) (root : Path) (dialect : Dialect) (name : String)
    : Except NameError Unit :=
  let fileName := dialect.fileName name
  if Text.isAllBlank name then .error .nothingGiven
  else if (Path.ofText name).extension?.isSome then .error .withExtension
  else if tree.isPresent (root.child fileName) then .error (.taken fileName)
  else if !(isPortable fileName && isPortable name) then .error (.notPortable name)
  else if !dialect.allowsBlanks && name.toList.any Text.isBlank then .error .containsBlank
  else if dialect == .java && !startsUpperCase name then .error .smallInitial
  else .ok ()

end RouteName

end RouteDesk
