import RouteDesk.Catalog.Provider
import RouteDesk.Log

/-! The section of the settings that the language server understands: how it is read, all or
nothing, and the configuration that is sent to the server.
-/

namespace RouteDesk

/-- The Camel settings of the language server. -/
structure CatalogSettings where
  version : Option String := none
  provider : Option Provider := none
deriving DecidableEq, Inhabited

namespace CatalogSettings

/-- The identifier of the language server. -/
def serverId : String := "camel-lsp-server"

/-- The name of the section. -/
def sectionKey : String := "camel"

/-- The key of the runtime provider. -/
def providerKey : String := "Camel catalog runtime provider"

/-- The key of the catalog version. -/
def versionKey : String := "Camel catalog version"

/-- An optional value, where null stands for none. -/
def optional {α : Type} (read : Json → Except Mismatch α) : Json → Except Mismatch (Option α)
  | .null => .ok none
  | other => (read other).map some

/-- The text that a document stands for. -/
def textOf : Json → Except Mismatch String
  | .text text => .ok text
  | other => .error (.kind other "a string")

/-- Reads fields one after the other; unknown ones are passed over. -/
def ofFields (settings : CatalogSettings) : Json.Fields → Except Mismatch CatalogSettings
  | [] => .ok settings
  | (key, value) :: rest =>
    if key = providerKey then
      match optional Provider.ofJson value with
      | .ok provider => ofFields { settings with provider } rest
      | .error mismatch => .error mismatch
    else if key = versionKey then
      match optional textOf value with
      | .ok version => ofFields { settings with version } rest
      | .error mismatch => .error mismatch
    else ofFields settings rest

/-- Reads a version and a provider by their positions. -/
def ofItems (items : List Json) : Except Mismatch CatalogSettings := do
  let version ← optional textOf (items.getD 0 .null)
  let provider ← optional Provider.ofJson (items.getD 1 .null)
  if 2 < items.length then .error (.tooLong items.length) else .ok ⟨version, provider⟩

/-- Reads a section: an object by its keys, a list by its positions. -/
def ofSection : Json → Except Mismatch CatalogSettings
  | .object fields => ofFields {} fields
  | .list items => ofItems items
  | other => .error (.kind other "struct CamelSettings")

/-- The section of a document: what it holds under the section's name, or else all of it. -/
def sectionOf (document : Json) : Json :=
  (document.get? sectionKey).getD document

/-- The settings of a document. A malformed section leaves everything unset and a warning. -/
def ofDocument (document : Json) : CatalogSettings × Log :=
  match ofSection (sectionOf document) with
  | .ok settings => (settings, [])
  | .error mismatch =>
    ({}, [⟨.warn, s!"ignoring malformed Camel settings: {mismatch.message}"⟩])

/-- The fields of the section for these settings. What is unset is left out. -/
def fields (settings : CatalogSettings) : Json.Fields :=
  let provider := settings.provider.map fun provider => (providerKey, Json.text provider.name)
  let version := settings.version.map fun version => (versionKey, Json.text version)
  provider.toList ++ version.toList

/-- The section for these settings. -/
def toSection (settings : CatalogSettings) : Json :=
  .object settings.fields

/-- The configuration that is sent to the language server. -/
def configuration (settings : CatalogSettings) : Json :=
  .object [(sectionKey, settings.toSection)]

/-- The settings as they are serialised: field by field, in the order of the fields, each under its
key. What is unset is left out.
-/
def serialized (settings : CatalogSettings) : Json :=
  let version := settings.version.map fun version => (versionKey, Json.text version)
  let provider := settings.provider.map fun provider =>
    (providerKey, Json.text provider.serialName)
  .object ((version.toList ++ provider.toList).foldl
    (fun held (key, value) => Json.Fields.put key value held) [])

end CatalogSettings

end RouteDesk
