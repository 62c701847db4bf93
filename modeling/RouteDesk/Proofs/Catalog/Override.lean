import RouteDesk.Proofs.Catalog.Failed
import RouteDesk.Proofs.Catalog.Shown
import RouteDesk.Proofs.FileTree.Rewrites

/-! What the release of an override leaves behind. It brings back the provider that was shown when
the override was taken, in the section of whatever document is there by then, and keeps everything
that others have changed meanwhile; if it cannot, it only says so in the log.
-/

namespace RouteDesk

open Json (Fields onReals onRealsFields)
open SettingsFile (follow sectionKeys)
open CatalogSettings (Shows ofDocument ofSection ofFields fieldOf sectionOf)

-----------------------------------------------------------------------------------------
-- Sections that show what they are read as
-----------------------------------------------------------------------------------------

namespace CatalogSettings

theorem shows_onReals (again : Float → Float) (change : Change) (document : Json)
    : Shows change (document.onReals again) ↔ Shows change document := by
  unfold Shows
  rw [get?_onReals, get?_onReals]
  cases document.get? sectionKey with
  | some inner =>
      change (ofSection (inner.onReals again)).toOption.bind _ = _ ↔ _
      rw [toOption_ofSection_onReals]
  | none =>
      have text (version : Json)
          : (version.onReals again = .null ∨ ∃ text, version.onReals again = .text text)
            ↔ version = .null ∨ ∃ text, version = .text text := by
        cases version <;> simp [onReals]
      cases document.get? versionKey <;> simp [text]

/-- A section shows the provider that it is read as having: where that is one, the version next to
it was read as well.
-/
theorem shows_ofDocument {fine : Float → Prop} {levels : Nat} {document : Json}
    (within : Json.Within fine levels document)
    : Shows (.ofProvider (ofDocument document).1.provider) document := by
  rw [provider_ofDocument]
  unfold Shows sectionOf
  cases document.get? sectionKey with
  | some inner =>
      change _ = Change.provider? (.ofProvider ((ofSection inner).toOption.bind _))
      cases (ofSection inner).toOption.bind CatalogSettings.provider <;> rfl
  | none =>
      cases read : (ofSection document).toOption.bind CatalogSettings.provider with
      | none =>
          change (ofSection document).toOption.bind _ = _ at read
          exact .inl (congrArg Change.ofProvider read)
      | some provider =>
          refine .inr ?_
          cases within with
          | object ascending all =>
              change (ofFields {} _).toOption.bind _ = _ at read
              rw [toOption_ofFields ascending] at read
              refine (isSome_version_iff _).mp ?_
              cases version : fieldOf textOf _ versionKey none with
              | some held => rfl
              | none => simp [version] at read
          | _ => nofun

end CatalogSettings

namespace SettingsFile

-----------------------------------------------------------------------------------------
-- Documents whose provider can be changed
-----------------------------------------------------------------------------------------

/-- Whether nothing but objects stands on the way to the section, as far as it leads. -/
def Passable (document : Json) : Prop :=
  ∀ front, front <+: sectionKeys →
    follow front document = none ∨ ∃ fields : Fields, follow front document = some (.object fields)

/-- Whether objects stand on the whole way to the section. -/
def Paved (document : Json) : Prop :=
  ∀ front, front <+: sectionKeys → ∃ fields : Fields, follow front document = some (.object fields)

theorem Paved.passable {document : Json} (paved : Paved document)
    : Passable document :=
  fun front along => .inr (paved front along)

/-- Only a value that is no object keeps fields from being changed, by induction on the keys. -/
theorem exists_changeAt (change : Fields → Fields) (last : String) {keys : List String}
    {document : Json}
    (passable : ∀ front, front <+: keys →
      follow front document = none
        ∨ ∃ fields : Fields, follow front document = some (.object fields))
    : ∃ after, document.changeAt change last keys = .ok after := by
  obtain ⟨fields, here⟩ := (passable [] List.nil_prefix).resolve_left nofun
  obtain rfl := Option.some.inj here
  induction keys generalizing fields with
  | nil => exact ⟨_, rfl⟩
  | cons key rest ih =>
      have inner (front : List String) (along : front <+: rest)
          : follow front ((fields.get? key).getD (.object [])) = none
            ∨ ∃ below : Fields,
                follow front ((fields.get? key).getD (.object [])) = some (.object below) := by
        cases held : fields.get? key with
        | none =>
            cases front with
            | nil => exact .inr ⟨[], rfl⟩
            | cons => exact .inl rfl
        | some value =>
            have outer := passable (key :: front) (by simpa using along)
            rwa [follow_cons_object, held] at outer
      obtain ⟨below, there⟩ := (inner [] List.nil_prefix).resolve_left nofun
      have same := Option.some.inj there
      obtain ⟨value, changed⟩ := ih below (same ▸ inner) (by rw [← same]; rfl)
      refine ⟨.object (fields.put key value), ?_⟩
      rw [Json.changeAt, same, changed]

/-- Only the disk can refuse a change of a passable document. -/
theorem unreachable_of_passable {change : Change} {file : SettingsFile} {document : Json}
    (loads : file.document = .ok document) (passable : Passable document) {reason : StoreError}
    (failed : (ProviderStore.change change file).2 = .error reason)
    : ∃ cause, reason = .unreachable file.path cause := by
  obtain ⟨changed, found⟩ := exists_changeAt change.onFields CatalogSettings.sectionKey passable
  rw [change_of_changeAt loads found] at failed
  unfold save at failed
  dsimp only at failed
  split at failed
  case h_1 => cases failed
  case h_2 cause _ => exact ⟨cause, (Except.error.inj failed).symm⟩

/-- A document with a section comes from a file that can be read. -/
theorem readable_of_paved {file : SettingsFile} {document : Json}
    (loads : file.document = .ok document) (paved : Paved document)
    : ∃ content, file.tree.read file.path = .ok content := by
  have given : document ≠ .object [] := by
    rintro rfl
    obtain ⟨fields, below⟩ := paved ["lsp"] (by decide)
    cases below
  unfold SettingsFile.document FileTree.readText at loads
  cases read : file.tree.read file.path with
  | ok content => exact ⟨content, rfl⟩
  | error reason =>
      rw [read] at loads
      cases reason with
      | missing => exact absurd (Except.ok.inj loads).symm given
      | _ => cases loads

/-- A file that can be read is overwritten. -/
theorem saved_of_read {file : SettingsFile} {content : Bytes}
    (held : file.tree.read file.path = .ok content) (document : Json)
    : (file.save document).2 = .ok () := by
  have written := FileTree.written_of_read held document.render
  unfold save
  dsimp only
  rw [written]

/-- The document of a file that can be read is changed unless it is not passable. -/
theorem changed_of_passable {file : SettingsFile} {document : Json} {content : Bytes}
    (held : file.tree.read file.path = .ok content) (loads : file.document = .ok document)
    (passable : Passable document) (change : Change)
    : (ProviderStore.change change file).2 = .ok () := by
  obtain ⟨changed, found⟩ := exists_changeAt change.onFields CatalogSettings.sectionKey passable
  rw [change_of_changeAt loads found]
  exact saved_of_read held changed

/-- Where a document has a section its provider can be changed. -/
theorem changed_of_paved {file : SettingsFile} {document : Json}
    (loads : file.document = .ok document) (paved : Paved document) (change : Change)
    : (ProviderStore.change change file).2 = .ok () := by
  obtain ⟨content, held⟩ := readable_of_paved loads paved
  exact changed_of_passable held loads paved.passable change

theorem sound_change {change : Change} {file : SettingsFile} (sound : file.tree.Sound)
    : (ProviderStore.change change file).1.tree.Sound := by
  rcases change_cases change file with
    ⟨_, -, same⟩ | ⟨_, _, -, -, same⟩ | ⟨_, changed, -, -, saves⟩
  · rwa [same]
  · rwa [same]
  · rw [saves]
    exact FileTree.durable_sound.writeWithParents sound file.path changed.render

theorem paved_of_amended {held : Option Json} {before after : Json}
    (amended : Amended sectionKeys CatalogSettings.providerKey held before after)
    (again : Float → Float)
    : Paved (after.onReals again) := by
  intro front along
  obtain ⟨fields, found, -⟩ := amended.way front along
  exact ⟨onRealsFields again fields, by rw [follow_onReals, found]; rfl⟩

-----------------------------------------------------------------------------------------
-- Releases
-----------------------------------------------------------------------------------------

/-- Whether a file loads as a document with the provider changed in its section, and nothing else.
-/
def Holds (provider : Option Provider) (document : Json) (file : SettingsFile) : Prop :=
  ∃ after,
    file.document = .ok after
    ∧ ∀ other,
        Amended sectionKeys CatalogSettings.providerKey
          (provider.map fun provider => .text provider.name) document other
        ↔ other = after

/-- The lines of a log that report failures. -/
def failures (log : Log) : Log :=
  log.filter (·.level = .error)

/-- What a release leaves behind, in view of the file that it found. -/
structure Released (override : Override) (found : SettingsFile) : Prop where
  /-- It succeeds where the found document has a section. -/
  succeeds (document : Json) (loads : found.document = .ok document) (paved : Paved document)
    : (ProviderStore.change (.ofProvider override.previous) found).2 = .ok ()
  /-- Then the provider is back, and what others have changed is still there. -/
  restored (done : (ProviderStore.change (.ofProvider override.previous) found).2 = .ok ())
    : failures (override.release found).2 = []
      ∧ ∀ document, found.document = .ok document → document.RealFree →
          Holds override.previous document (override.release found).1
  /-- Otherwise the file is left alone, and one line of the log says why. -/
  refused (reason : StoreError)
    (failed : (ProviderStore.change (.ofProvider override.previous) found).2 = .error reason)
    : LeftAlone (.ofProvider override.previous) found (override.release found).1 reason
      ∧ failures (override.release found).2
        = [⟨.error, s!"failed to restore Camel runtime provider: {reason.message}"⟩]
  /-- Unless something on the way to the section is no object, that is the disk's refusal. -/
  blamed (document : Json) (loads : found.document = .ok document) (passable : Passable document)
    (reason : StoreError)
    (failed : (ProviderStore.change (.ofProvider override.previous) found).2 = .error reason)
    : ∃ cause, reason = .unreachable found.path cause

theorem provider?_ofProvider (provider : Option Provider)
    : (Change.ofProvider provider).provider? = provider := by
  cases provider <;> rfl

theorem failures_notes (change : Change) (file : SettingsFile)
    : failures (ProviderStore.notes change file) = [] := by
  cases change <;> rfl

/-- A successful change leaves a document with just the provider changed. -/
theorem holds_of_change {change : Change} {file : SettingsFile} {document : Json}
    (sound : file.tree.Sound) (loads : file.document = .ok document) (free : document.RealFree)
    (done : (ProviderStore.change change file).2 = .ok ())
    : Holds change.provider? document (ProviderStore.change change file).1 := by
  have within := (within_of_document loads).of_realFree free
  obtain ⟨after, amended, kept, loaded⟩ :=
    @amended_of_change _ id nofun _ _ _ sound loads within done
  rw [Json.onReals_of_realFree kept.realFree] at loaded
  refine ⟨after, loaded, fun other => ⟨fun same => same.unique amended, ?_⟩⟩
  rintro rfl
  exact amended

/-- Whatever file an override finds, its release leaves it in this way. -/
theorem released (override : Override) {found : SettingsFile} (sound : found.tree.Sound)
    : Released override found where
  succeeds document loads paved := changed_of_paved loads paved _
  restored done := by
    refine ⟨?_, fun document loads free => ?_⟩
    · unfold Override.release failures
      dsimp only
      rw [done, List.append_nil]
      exact failures_notes _ found
    · rw [← provider?_ofProvider override.previous]
      exact holds_of_change sound loads free done
  refused reason failed := by
    refine ⟨leftAlone_of_change failed, ?_⟩
    unfold Override.release failures
    dsimp only
    rw [failed, List.filter_append]
    exact congrArg (· ++ _) (failures_notes _ found)
  blamed document loads passable reason failed := unreachable_of_passable loads passable failed

-----------------------------------------------------------------------------------------
-- Overrides
-----------------------------------------------------------------------------------------

theorem catalogSettings_eq {file : SettingsFile} {document : Json}
    (loads : file.document = .ok document)
    : ∃ log, file.catalogSettings
        = .ok ((ofDocument ((follow sectionKeys document).getD (.object []))).1, log) := by
  unfold catalogSettings
  rw [loads]
  dsimp only
  cases follow sectionKeys document with
  | some section_ => exact ⟨_, rfl⟩
  | none => exact ⟨[], rfl⟩

theorem read_eq {file : SettingsFile} {document : Json} (loads : file.document = .ok document)
    : ∃ log, ProviderStore.read file
        = .ok ((ofDocument ((follow sectionKeys document).getD (.object []))).1.provider, log) := by
  obtain ⟨log, settings⟩ := catalogSettings_eq loads
  refine ⟨log, ?_⟩
  change file.catalogSettings.map _ = _
  rw [settings]
  rfl

/-- An override is taken by a change, and remembers what was read before it. -/
theorem taken_spec {provider : Provider} {file : SettingsFile} {override : Override}
    (taken : (Override.take provider file).2.1 = .ok override)
    : (∃ log, ProviderStore.read file = .ok (override.previous, log))
      ∧ (ProviderStore.change (.set provider) file).2 = .ok ()
      ∧ (Override.take provider file).1 = (ProviderStore.change (.set provider) file).1 := by
  unfold Override.take at taken ⊢
  split at taken
  case h_1 => cases taken
  case h_2 previous log read =>
    dsimp only at taken
    cases outcome : (ProviderStore.change (.set provider) file).2 with
    | error reason =>
        rw [outcome] at taken
        cases taken
    | ok done =>
        rw [outcome] at taken
        obtain rfl := Except.ok.inj taken
        exact ⟨⟨log, read⟩, rfl, rfl⟩

/-- An override is taken where a document has a section, and remembers what the section shows. -/
theorem taken_of_paved (provider : Provider) {file : SettingsFile} {document : Json}
    (loads : file.document = .ok document) (paved : Paved document)
    : (Override.take provider file).2.1
      = .ok ⟨(ofDocument ((follow sectionKeys document).getD (.object []))).1.provider⟩ := by
  obtain ⟨log, read⟩ := read_eq loads
  have done := changed_of_paved loads paved (.set provider)
  unfold Override.take
  rw [read]
  dsimp only
  rw [done]
  rfl

theorem within_follow {fine : Float → Prop} {levels : Nat} (keys : List String)
    {document : Json} (within : Json.Within fine levels document)
    : ∃ depth, Json.Within fine depth ((follow keys document).getD (.object [])) := by
  induction keys generalizing levels document with
  | nil => exact ⟨_, within⟩
  | cons key rest ih =>
      rw [follow]
      cases held : document.get? key with
      | none => exact ⟨1, .emptyObject⟩
      | some value =>
          cases within with
          | object ascending all => exact ih (all _ (Fields.mem_of_get?_eq_some held))
          | _ => cases held

/-- A file that nobody has changed since an override was taken shows again what it showed before.
-/
theorem read_released {provider : Provider} {file : SettingsFile} {override : Override}
    (sound : file.tree.Sound) (taken : (Override.take provider file).2.1 = .ok override)
    : ∃ log, ProviderStore.read (override.release (Override.take provider file).1).1
        = .ok (override.previous, log) := by
  obtain ⟨⟨log, read⟩, done, same⟩ := taken_spec taken
  obtain ⟨before, loads⟩ := loads_of_change done
  obtain ⟨again, rereads⟩ := Json.exists_again
  obtain ⟨after, amended, -, loaded⟩ :=
    amended_of_change rereads sound loads (within_of_document loads) done
  have restored := changed_of_paved loaded (paved_of_amended amended again)
    (.ofProvider override.previous)
  obtain ⟨shown, lines, readAgain, shows'⟩ :=
    read_of_change (sound_change sound) loaded restored
  obtain ⟨fields, found, -, -, others⟩ := section_of_amended amended
  obtain ⟨noted, first⟩ := read_eq loads
  have previous : override.previous
      = (ofDocument ((follow sectionKeys before).getD (.object []))).1.provider :=
    (Prod.mk.inj (Except.ok.inj (read.symm.trans first))).1
  have shown_eq : shown = override.previous := by
    obtain ⟨depth, within⟩ := within_follow sectionKeys (within_of_document loads)
    have former := CatalogSettings.shows_ofDocument within
    rw [← previous] at former
    have still : Shows (.ofProvider override.previous) (.object fields) :=
      (@CatalogSettings.shows_congr _ (.object fields) _ others).mpr former
    rw [← provider?_ofProvider override.previous]
    refine shows'.mpr ?_
    rw [follow_onReals, found]
    exact (CatalogSettings.shows_onReals again _ _).mpr still
  rw [same]
  exact ⟨lines, shown_eq ▸ readAgain⟩

/-- An override of settings in memory is released by setting the provider from before. -/
theorem released_transient (provider : Provider) (store : TransientSettings)
    : ∃ override,
        (Override.take provider store).2.1 = .ok override
        ∧ ProviderStore.read store = .ok (override.previous, [])
        ∧ (∀ later : TransientSettings,
            override.release later
              = (⟨{ later.camel with provider := override.previous }⟩, []))
        ∧ override.release (Override.take provider store).1 = (store, []) := by
  have back (later : TransientSettings)
      : Override.release ⟨store.camel.provider⟩ later
        = (⟨{ later.camel with provider := store.camel.provider }⟩, []) := by
    unfold Override.release
    change ((⟨{ later.camel with provider := (Change.ofProvider _).provider? }⟩
      : TransientSettings), []) = _
    rw [provider?_ofProvider]
  exact ⟨⟨store.camel.provider⟩, rfl, rfl, back, back _⟩

/-- An override remembers what was shown before it. Whenever it is released it puts just that
back, over whatever document is there by then, or fails without effect and says so once; over what
it has left itself the same provider is shown as before.
-/
theorem putBack_of_take {provider : Provider} {file : SettingsFile} {override : Override}
    (sound : file.tree.Sound) (taken : (Override.take provider file).2.1 = .ok override)
    : (∃ log, ProviderStore.read file = .ok (override.previous, log))
      ∧ (∀ found : SettingsFile, found.tree.Sound → Released override found)
      ∧ (∃ log, ProviderStore.read (override.release (Override.take provider file).1).1
          = .ok (override.previous, log))
      ∧ ∀ store : TransientSettings, ∃ memory,
          (Override.take provider store).2.1 = .ok memory
          ∧ ProviderStore.read store = .ok (memory.previous, [])
          ∧ (∀ later : TransientSettings,
              memory.release later = (⟨{ later.camel with provider := memory.previous }⟩, []))
          ∧ memory.release (Override.take provider store).1 = (store, []) :=
  ⟨(taken_spec taken).1, fun _ whole => released override whole, read_released sound taken,
    released_transient provider⟩

-----------------------------------------------------------------------------------------
-- A file that others edit meanwhile
-----------------------------------------------------------------------------------------

/-- A document with a provider, a version next to it, and a setting of another kind. -/
def versioned (provider : Provider) (version : String) : Json :=
  let camel := Json.object [
    (CatalogSettings.providerKey, .text provider.name),
    (CatalogSettings.versionKey, .text version)]
  let server := Json.object [("settings", .object [(CatalogSettings.sectionKey, camel)])]
  .object [("lsp", .object [(CatalogSettings.serverId, server)]), ("tab_size", .integer 2)]

theorem within_versioned (provider : Provider) (version : String)
    : Json.Within (fun _ => False) Json.Reading.depthLimit (versioned provider version) := by
  have pair {levels : Nat} {key other : String} {value next : Json} (above : key < other)
      (first : Json.Within (fun _ => False) levels value)
      (second : Json.Within (fun _ => False) levels next)
      : Json.Within (fun _ => False) (levels + 1) (.object [(key, value), (other, next)]) :=
    .object (List.pairwise_pair.mpr above)
      (List.forall_mem_cons.mpr ⟨first, List.forall_mem_singleton.mpr second⟩)
  have lone {levels : Nat} {key : String} {value : Json}
      (inner : Json.Within (fun _ => False) levels value)
      : Json.Within (fun _ => False) (levels + 1) (.object [(key, value)]) :=
    .object (List.pairwise_singleton _ _) (List.forall_mem_singleton.mpr inner)
  exact pair (by decide) (lone (lone (lone (pair (by decide) (.text _) (.text _)))))
    (.integer (by decide) (by decide))

theorem paved_versioned (provider : Provider) (version : String)
    : Paved (versioned provider version) := by
  intro front along
  rw [← List.mem_inits] at along
  simp only [sectionKeys, List.inits, List.map_cons, List.map_nil, List.mem_cons,
    List.not_mem_nil, or_false] at along
  rcases along with rfl | rfl | rfl | rfl | rfl <;> exact ⟨_, rfl⟩

theorem changeAt_versioned (former provider : Provider) (version : String)
    : (versioned former version).changeAt (Change.set provider).onFields
        CatalogSettings.sectionKey sectionKeys
      = .ok (versioned provider version) := by
  simp [versioned, sectionKeys, Json.changeAt, Json.Fields.get?, List.lookup, Json.Fields.put,
    Change.onFields, CatalogSettings.providerKey, CatalogSettings.versionKey]

/-- A file with only the provider changed is the same with the other provider. -/
theorem Holds.versioned {former provider : Provider} {version : String} {file : SettingsFile}
    (holds : Holds (some provider) (versioned former version) file)
    : file.document = .ok (versioned provider version) := by
  obtain ⟨after, loaded, unique⟩ := holds
  have amended := amended_changeAt (Change.set provider).replaces
    (within_versioned former version) (by decide) (changeAt_versioned former provider version)
  rw [loaded, (unique _).mp amended]

/-- A settings file after such a document was written to it. -/
def storing (file : SettingsFile) (provider : Provider) (version : String) : SettingsFile :=
  (file.save (versioned provider version)).1

theorem sound_storing {file : SettingsFile} (sound : file.tree.Sound) (provider : Provider)
    (version : String)
    : (file.storing provider version).tree.Sound :=
  FileTree.durable_sound.writeWithParents sound file.path (versioned provider version).render

theorem document_storing {file : SettingsFile} {provider : Provider} {version : String}
    (sound : file.tree.Sound) (saved : (file.save (versioned provider version)).2 = .ok ())
    : (file.storing provider version).document = .ok (versioned provider version) := by
  have within := within_versioned provider version
  refine (@document_of_save _ id nofun _ sound _ within saved).trans ?_
  exact congrArg Except.ok (Json.onReals_of_realFree within.realFree id)

/-- The settings file of a project, with a provider. -/
def shared : SettingsFile :=
  (ofProject {} (Path.ofText "/desk")).storing .karaf "4.8.0"

/-- That file during an override, after someone else has written another version to it. -/
def sharedEdited : SettingsFile :=
  (Override.take .quarkus shared).1.storing .quarkus "4.9.0"

/-- The provider comes back next to the version that was written meanwhile, and without that edit
next to the version from before.
-/
theorem putBack_of_take_edited
    : (Override.take .quarkus shared).1.document = .ok (versioned .quarkus "4.8.0")
      ∧ sharedEdited.document = .ok (versioned .quarkus "4.9.0")
      ∧ ∃ override : Override,
          (Override.take .quarkus shared).2.1 = .ok override
          ∧ override.previous = some .karaf
          ∧ (override.release sharedEdited).1.document = .ok (versioned .karaf "4.9.0")
          ∧ failures (override.release sharedEdited).2 = []
          ∧ ∃ log,
              ProviderStore.read (override.release (Override.take .quarkus shared).1).1
                = .ok (some .karaf, log) := by
  have sound : shared.tree.Sound := sound_storing (.empty []) _ _
  have loads : shared.document = .ok (versioned .karaf "4.8.0") := document_storing (.empty []) rfl
  have taken : (Override.take .quarkus shared).2.1 = .ok ⟨some .karaf⟩ :=
    taken_of_paved .quarkus loads (paved_versioned .karaf "4.8.0")
  obtain ⟨-, done, same⟩ := taken_spec taken
  have during : (Override.take .quarkus shared).1.document = .ok (versioned .quarkus "4.8.0") := by
    rw [same]
    exact (holds_of_change sound loads (within_versioned ..).realFree done).versioned
  obtain ⟨content, held⟩ := readable_of_paved during (paved_versioned .quarkus "4.8.0")
  have soundDuring : (Override.take .quarkus shared).1.tree.Sound := by
    rw [same]
    exact sound_change sound
  have edited : sharedEdited.document = .ok (versioned .quarkus "4.9.0") :=
    document_storing soundDuring (saved_of_read held _)
  obtain ⟨-, released, read, -⟩ := putBack_of_take sound taken
  have leaves := released sharedEdited (sound_storing soundDuring _ _)
  obtain ⟨quiet, restored⟩ := leaves.restored
    (leaves.succeeds _ edited (paved_versioned .quarkus "4.9.0"))
  exact ⟨during, edited, ⟨some .karaf⟩, taken, rfl,
    (restored _ edited (within_versioned ..).realFree).versioned, quiet, read⟩

end SettingsFile

end RouteDesk
