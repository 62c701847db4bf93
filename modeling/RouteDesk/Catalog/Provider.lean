import RouteDesk.Json.Value
import RouteDesk.Json.Decimal
import RouteDesk.Text.Quoted

/-! The runtime providers whose catalogs the language server can complete against, and how
one is read from a word or from a settings document.
-/

namespace RouteDesk

/-- A runtime whose Camel catalog the language server uses. -/
inductive Provider where
  | standard
  | springBoot
  | quarkus
  | karaf
deriving DecidableEq, Inhabited

namespace Provider

/-- Every provider. -/
def all : List Provider :=
  [.standard, .springBoot, .quarkus, .karaf]

/-- The name of a provider in settings. -/
def name : Provider → String
  | .standard => "DEFAULT"
  | .springBoot => "SPRINGBOOT"
  | .quarkus => "QUARKUS"
  | .karaf => "KARAF"

/-- The identifier of a provider. -/
def identifier : Provider → String
  | .standard => "Default"
  | .springBoot => "SpringBoot"
  | .quarkus => "Quarkus"
  | .karaf => "Karaf"

/-- What a provider is serialised as: its identifier in capitals. -/
def serialName (provider : Provider) : String :=
  String.ofList (provider.identifier.toList.map Char.toUpper)

/-- The provider of exactly this name. -/
def ofName? (name : String) : Option Provider :=
  all.find? fun provider => provider.name == name

/-- The provider of this name, whatever the case of its letters. -/
def ofText? (text : String) : Option Provider :=
  all.find? fun provider =>
    provider.name.toList.map Char.toLower == text.toList.map Char.toLower

/-- What is said of a text that names no provider. -/
def unknownMessage (text : String) : String :=
  s!"unknown runtime provider `{text}` (expected DEFAULT, SPRINGBOOT, QUARKUS or KARAF)"

/-- The capitals of an identifier are the name. -/
theorem serialName_eq_name (provider : Provider)
    : provider.serialName = provider.name := by
  cases provider <;> rfl

/-- A name is found again. -/
theorem ofName?_name (provider : Provider)
    : ofName? provider.name = some provider := by
  cases provider <;> rfl

end Provider

/-- How a value in a settings document differs from what is wanted there. -/
inductive Mismatch where
  | kind (found : Json) (wanted : String)
  | manyKeys
  | unknownProvider (name : String)
  | tooLong (length : Nat)

/-- The kind of a value, and the value itself if that is short. -/
def Json.kind : Json → String
  | .null => "null"
  | .bool true => "boolean `true`"
  | .bool false => "boolean `false`"
  | .integer value => s!"integer `{value}`"
  | .real value => s!"floating point `{Decimal.ofFloat value}`"
  | .text value => "string " ++ Text.quoted value
  | .list _ => "sequence"
  | .object _ => "map"

/-- The text of a mismatch. -/
def Mismatch.message : Mismatch → String
  | .kind found wanted => s!"invalid type: {found.kind}, expected {wanted}"
  | .manyKeys => "invalid value: map, expected map with a single key"
  | .unknownProvider name =>
    s!"unknown variant `{name}`, expected one of "
      ++ ", ".intercalate (Provider.all.map fun provider => s!"`{provider.name}`")
  | .tooLong length =>
    s!"invalid length {length}, expected fewer elements in array"

namespace Provider

/-- The provider of exactly this name, or how it is not one. -/
def named (name : String) : Except Mismatch Provider :=
  match ofName? name with
  | some provider => .ok provider
  | none => .error (.unknownProvider name)

/-- The provider that a document stands for: its name, or an object with nothing but its name
and a null.
-/
def ofJson : Json → Except Mismatch Provider
  | .text name => named name
  | .object [(name, content)] =>
    match named name, content with
    | .error mismatch, _ => .error mismatch
    | .ok provider, .null => .ok provider
    | .ok _, other => .error (.kind other "unit")
  | .object _ => .error .manyKeys
  | other => .error (.kind other "string or map")

end Provider

end RouteDesk
