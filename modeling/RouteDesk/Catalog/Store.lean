import RouteDesk.FileTree.Change
import RouteDesk.Json.Reader
import RouteDesk.Json.Printer
import RouteDesk.Catalog.Section
import RouteDesk.Text.Blank

/-! Where the runtime provider is kept: in memory, or in a settings file whose other contents
stay as they are. A change can be taken for a while, and is then undone.
-/

namespace RouteDesk

/-- Why settings cannot be read or changed. -/
inductive StoreError where
  | unreachable (path : Path) (reason : FileError)
  | malformed (path : Path) (reason : Json.ReadError)
  | noObjectAt (path : Path) (key : String)

namespace StoreError

/-- What is said of a failure. -/
def message : StoreError → String
  | .unreachable path _ => s!"failed to access settings file {path.display}"
  | .malformed path _ => s!"settings file {path.display} is not valid JSON"
  | .noObjectAt path key =>
    s!"settings file {path.display} does not hold a JSON object at `{key}`"

/-- What is said of a failure and of its cause. -/
def chain (error : StoreError) : String :=
  match error with
  | .unreachable _ reason => s!"{error.message}: {reason.message}"
  | .malformed _ reason => s!"{error.message}: {reason.message}"
  | .noObjectAt _ _ => error.message

end StoreError

/-- A change of the runtime provider. -/
inductive Change where
  | set (provider : Provider)
  | clear
deriving DecidableEq

namespace Change

/-- The change that brings a provider about. -/
def ofProvider : Option Provider → Change
  | some provider => .set provider
  | none => .clear

/-- The section after the change. -/
def onFields (change : Change) (fields : Json.Fields) : Json.Fields :=
  match change with
  | .set provider => Json.Fields.put CatalogSettings.providerKey (.text provider.name) fields
  | .clear => Json.Fields.erase CatalogSettings.providerKey fields

/-- The provider after the change. -/
def provider? : Change → Option Provider
  | .set provider => some provider
  | .clear => none

end Change

/-- The document with the fields changed of the object that the keys lead to; objects missing
on the way are made. A failure names the key that was being looked up, or the last one if the
value found there is no object.
-/
def Json.changeAt (change : Json.Fields → Json.Fields) (last : String)
    : List String → Json → Except String Json
  | [], .object fields => .ok (.object (change fields))
  | [], _ => .error last
  | key :: rest, .object fields =>
    match changeAt change last rest ((Json.Fields.get? fields key).getD (.object [])) with
    | .ok value => .ok (.object (Json.Fields.put key value fields))
    | .error key => .error key
  | key :: _, _ => .error key

/-- A settings file in a tree. -/
structure SettingsFile where
  path : Path
  tree : FileTree

namespace SettingsFile

/-- The keys that lead to the section. -/
def sectionKeys : List String :=
  ["lsp", CatalogSettings.serverId, "settings", CatalogSettings.sectionKey]

/-- The settings file of a workspace. -/
def ofProject (tree : FileTree) (root : Path) : SettingsFile :=
  ⟨(root.child ".zed").child "settings.json", tree⟩

/-- The document that the file holds. A file that is absent or blank holds an empty object. -/
def document (file : SettingsFile) : Except StoreError Json :=
  match file.tree.readText file.path with
  | .error .missing => .ok (.object [])
  | .error reason => .error (.unreachable file.path reason)
  | .ok text =>
    if Text.isAllBlank text then .ok (.object [])
    else
      match Json.ofCommented (Bytes.ofText text) with
      | .ok document => .ok document
      | .error reason => .error (.malformed file.path reason)

/-- The file after its document was written, with directories made on the way to it. -/
def save (file : SettingsFile) (document : Json) : SettingsFile × Except StoreError Unit :=
  let (tree, outcome) := file.tree.writeWithParents file.path document.render
  ({ file with tree },
    match outcome with
    | .ok () => .ok ()
    | .error reason => .error (.unreachable file.path reason))

/-- The file after a change of the section's fields. Nothing is written unless the whole way
to the section consists of objects.
-/
def amend (change : Json.Fields → Json.Fields) (file : SettingsFile)
    : SettingsFile × Except StoreError Unit :=
  match file.document with
  | .error reason => (file, .error reason)
  | .ok document =>
    match document.changeAt change CatalogSettings.sectionKey sectionKeys with
    | .error key => (file, .error (.noObjectAt file.path key))
    | .ok changed => file.save changed

/-- The value that keys lead to. -/
def follow : List String → Json → Option Json
  | [], document => some document
  | key :: rest, document => (document.get? key).bind (follow rest)

/-- The settings in the file, and what is logged on reading them. -/
def catalogSettings (file : SettingsFile) : Except StoreError (CatalogSettings × Log) :=
  match file.document with
  | .error reason => .error reason
  | .ok document =>
    match follow sectionKeys document with
    | some section_ => .ok (CatalogSettings.ofDocument section_)
    | none => .ok ({}, [])

end SettingsFile

/-- Settings in memory. -/
structure TransientSettings where
  camel : CatalogSettings := {}
deriving DecidableEq

/-- What keeps the runtime provider. -/
class ProviderStore (σ : Type) where
  /-- The provider that is set, and what is logged on reading it. -/
  read : σ → Except StoreError (Option Provider × Log)
  /-- The store after a change, or after a failed one. -/
  change : Change → σ → σ × Except StoreError Unit
  /-- What is logged before a change. -/
  notes : Change → σ → Log

instance : ProviderStore TransientSettings where
  read store := .ok (store.camel.provider, [])
  change change store := ({ camel := { store.camel with provider := change.provider? } }, .ok ())
  notes _ _ := []

instance : ProviderStore SettingsFile where
  read file := file.catalogSettings.map fun (settings, log) => (settings.provider, log)
  change change file := file.amend change.onFields
  notes change file :=
    match change with
    | .set provider =>
      [⟨.debug,
        s!"setting {CatalogSettings.providerKey} to {provider.name} in {file.path.display}"⟩]
    | .clear => [⟨.debug, s!"clearing {CatalogSettings.providerKey} in {file.path.display}"⟩]

namespace SettingsFile

variable {file : SettingsFile} {document : Json}

theorem change_of_unloaded {reason : StoreError} (refused : file.document = .error reason)
    (change : Change)
    : ProviderStore.change change file = (file, .error reason) := by
  change file.amend change.onFields = _
  rw [amend, refused]

theorem change_of_impassable {change : Change} {key : String}
    (loads : file.document = .ok document)
    (refused : document.changeAt change.onFields CatalogSettings.sectionKey sectionKeys
      = .error key)
    : ProviderStore.change change file = (file, .error (.noObjectAt file.path key)) := by
  change file.amend change.onFields = _
  rw [amend, loads]
  dsimp only
  rw [refused]

theorem change_of_changeAt {change : Change} {changed : Json}
    (loads : file.document = .ok document)
    (found : document.changeAt change.onFields CatalogSettings.sectionKey sectionKeys
      = .ok changed)
    : ProviderStore.change change file = file.save changed := by
  change file.amend change.onFields = _
  rw [amend, loads]
  dsimp only
  rw [found]

/-- All that a change can do: the file does not load, or the way to the section is not one of
objects, or the changed document is saved.
-/
theorem change_cases (change : Change) (file : SettingsFile)
    : (∃ reason, file.document = .error reason
        ∧ ProviderStore.change change file = (file, .error reason))
      ∨ (∃ document key, file.document = .ok document
        ∧ document.changeAt change.onFields CatalogSettings.sectionKey sectionKeys = .error key
        ∧ ProviderStore.change change file = (file, .error (.noObjectAt file.path key)))
      ∨ ∃ document changed, file.document = .ok document
        ∧ document.changeAt change.onFields CatalogSettings.sectionKey sectionKeys = .ok changed
        ∧ ProviderStore.change change file = file.save changed := by
  cases loads : file.document with
  | error reason => exact .inl ⟨reason, rfl, change_of_unloaded loads change⟩
  | ok document =>
      refine .inr ?_
      cases outcome
          : document.changeAt change.onFields CatalogSettings.sectionKey sectionKeys with
      | error key => exact .inl ⟨document, key, rfl, outcome, change_of_impassable loads outcome⟩
      | ok changed =>
          exact .inr ⟨document, changed, rfl, outcome, change_of_changeAt loads outcome⟩

end SettingsFile

/-- A change of the provider that lasts until it is released. -/
structure Override where
  previous : Option Provider
deriving DecidableEq

namespace Override

variable {σ : Type} [ProviderStore σ]

/-- Sets a provider until the override is released. -/
def take (provider : Provider) (store : σ) : σ × Except StoreError Override × Log :=
  match ProviderStore.read store with
  | .error reason => (store, .error reason, [])
  | .ok (previous, log) =>
    let (changed, outcome) := ProviderStore.change (.set provider) store
    (changed, outcome.map fun () => ⟨previous⟩,
      log ++ ProviderStore.notes (.set provider) store)

/-- Brings the provider back that was there before. A failure is only logged. -/
def release (override : Override) (store : σ) : σ × Log :=
  let change := Change.ofProvider override.previous
  let (restored, outcome) := ProviderStore.change change store
  (restored, ProviderStore.notes change store ++
    match outcome with
    | .ok () => []
    | .error reason =>
      [⟨.error, s!"failed to restore Camel runtime provider: {reason.message}"⟩])

end Override

end RouteDesk
