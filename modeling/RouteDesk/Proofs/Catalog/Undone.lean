import RouteDesk.Proofs.Catalog.Override
import RouteDesk.Proofs.Catalog.Sections

/-! The settings that the language server is sent, before an override and after its release. Only
the provider is brought back, while the settings are read from the whole section: a provider that
cannot be read is not there again, and no longer keeps the version next to it from being read.
-/

namespace RouteDesk

open Json (Fields onReals)
open SettingsFile (follow sectionKeys)
open CatalogSettings (ofDocument)

namespace CatalogSettings

-----------------------------------------------------------------------------------------
-- Sections that withhold their version
-----------------------------------------------------------------------------------------

/-- Whether a section holds a version that is not read, for there is a value next to it that is no
provider.
-/
def Withholds (section_ : Json) : Prop :=
  section_.get? sectionKey = none
  ∧ (∃ value, section_.get? providerKey = some value
    ∧ (optional Provider.ofJson value).toOption = none)
  ∧ ∃ version, section_.get? versionKey = some (.text version)

/-- The settings in fields with no section among them: those of the provider and the version if
both can be read.
-/
theorem settings_of_fields {fields : Fields} (ascending : fields.Ascending)
    (apart : fields.get? sectionKey = none)
    : (ofDocument (.object fields)).1
      = ((fieldOf Provider.ofJson fields providerKey none).bind fun provider =>
          (fieldOf textOf fields versionKey none).map fun version =>
            (⟨version, provider⟩ : CatalogSettings)).getD {} := by
  have own : sectionOf (.object fields) = .object fields := by
    change (fields.get? sectionKey).getD _ = _
    rw [apart]
    rfl
  rw [settings_ofDocument, own]
  exact congrArg (Option.getD · {}) (toOption_ofFields ascending {})

/-- A section withholds its version if the provider is not read and the version by itself is. -/
theorem withholds_iff {fields : Fields} (apart : fields.get? sectionKey = none)
    : Withholds (.object fields)
      ↔ fieldOf Provider.ofJson fields providerKey none = none
        ∧ ∃ version, fieldOf textOf fields versionKey none = some (some version) := by
  change fields.get? sectionKey = none ∧ (∃ value, fields.get? providerKey = some value ∧ _)
    ∧ (∃ version, fields.get? versionKey = some (.text version)) ↔ _
  refine (and_iff_right apart).trans (and_congr ?_ (exists_congr fun version => ?_))
  · unfold fieldOf
    cases fields.get? providerKey <;> simp
  · unfold fieldOf
    cases fields.get? versionKey with
    | none => simp
    | some value => cases value <;> simp [optional, textOf, Except.map, Except.toOption]

/-- Settings whose provider was replaced by the one that was read, and whose real numbers were read
again: they are the settings from before unless these withheld a version. Witness: the section
within is the same, and without one the provider and the version are read each by itself.
-/
theorem settings_eq_iff (again : Float → Float) {before fields : Fields}
    (former : before.Ascending) (ascending : fields.Ascending)
    (held : fields.get? providerKey
      = (Change.ofProvider (ofDocument (.object before)).1.provider).provider?.map
        fun provider => .text provider.name)
    (others : ∀ key, key ≠ providerKey →
      fields.get? key = (before.get? key).map (onReals again))
    : (ofDocument (.object fields)).1 = (ofDocument (.object before)).1
      ↔ ¬ Withholds (.object before) := by
  have section_ := others sectionKey (by decide)
  cases inner : before.get? sectionKey with
  | some below =>
      rw [inner] at section_
      have own : sectionOf (.object before) = below := by
        change (before.get? sectionKey).getD _ = _
        rw [inner]
        rfl
      have changed : sectionOf (.object fields) = below.onReals again := by
        change (fields.get? sectionKey).getD _ = _
        rw [section_]
        rfl
      have same : (ofDocument (.object fields)).1 = (ofDocument (.object before)).1 := by
        rw [settings_ofDocument, settings_ofDocument, own, changed, toOption_ofSection_onReals]
      exact iff_of_true same fun withheld => nomatch inner.symm.trans withheld.1
  | none =>
      rw [inner] at section_
      have version : fieldOf textOf fields versionKey none
          = fieldOf textOf before versionKey none := by
        unfold fieldOf
        rw [others versionKey (by decide)]
        cases before.get? versionKey with
        | none => rfl
        | some value => exact toOption_textOf_onReals again value
      rw [withholds_iff inner]
      rw [settings_of_fields former inner] at held ⊢
      rw [settings_of_fields ascending section_, provider_of_change held,
        SettingsFile.provider?_ofProvider, version]
      cases fieldOf textOf before versionKey none with
      | none => cases fieldOf Provider.ofJson before providerKey none <;> simp
      | some version =>
          cases fieldOf Provider.ofJson before providerKey none with
          | some provider => simp
          | none => cases version <;> simp

end CatalogSettings

namespace SettingsFile

-----------------------------------------------------------------------------------------
-- Overrides of files that nobody else changes
-----------------------------------------------------------------------------------------

/-- Only an object is changed at the end of the keys, by induction on them. -/
theorem section_of_changeAt {change : Fields → Fields} {last : String} {keys : List String}
    {document after : Json} (changed : document.changeAt change last keys = .ok after)
    : ∃ fields : Fields, (follow keys document).getD (.object []) = .object fields := by
  induction keys generalizing document after with
  | nil =>
      cases document with
      | object fields => exact ⟨fields, rfl⟩
      | _ => cases changed
  | cons key rest ih =>
      cases document with
      | object fields =>
          rw [Json.changeAt] at changed
          split at changed
          case h_2 => cases changed
          case h_1 value inner =>
            obtain ⟨below, found⟩ := ih inner
            rw [follow_cons_object]
            cases held : Fields.get? fields key with
            | none => exact ⟨[], rfl⟩
            | some value =>
                rw [held] at found
                exact ⟨below, found⟩
      | _ => cases changed

/-- An override of a file that nobody else changes can be released. The settings are then those
from before the override, and so is the configuration that is sent for them, unless the section
withheld a version.
-/
theorem settings_released {provider : Provider} {file : SettingsFile} {override : Override}
    (sound : file.tree.Sound) (taken : (Override.take provider file).2.1 = .ok override)
    : ∃ document before noted after logged,
        file.document = .ok document
        ∧ file.catalogSettings = .ok (before, noted)
        ∧ (ProviderStore.change (.ofProvider override.previous)
            (Override.take provider file).1).2 = .ok ()
        ∧ (override.release (Override.take provider file).1).1.catalogSettings
          = .ok (after, logged)
        ∧ (after = before
          ↔ ¬ CatalogSettings.Withholds ((follow sectionKeys document).getD (.object [])))
        ∧ (after.configuration = before.configuration
          ↔ ¬ CatalogSettings.Withholds ((follow sectionKeys document).getD (.object []))) := by
  obtain ⟨⟨log, read⟩, done, same⟩ := taken_spec taken
  rw [same]
  obtain ⟨document, loads⟩ := loads_of_change done
  obtain ⟨noted, settings⟩ := catalogSettings_eq loads
  obtain ⟨again, rereads⟩ := Json.exists_again
  -- The document while the override lasts, and the section in it.
  obtain ⟨during, amended, -, loaded⟩ :=
    amended_of_change rereads sound loads (within_of_document loads) done
  obtain ⟨fields, found, -, -, kept⟩ := section_of_amended amended
  have restored := changed_of_paved loaded (paved_of_amended amended again)
    (.ofProvider override.previous)
  -- The section after the release, next to the one from before.
  obtain ⟨final, ascending, held, others, shown⟩ :=
    settings_of_change rereads (sound_change sound) loaded (within_of_document loaded) restored
  obtain ⟨changed, amends, -⟩ := save_of_change loads done
  obtain ⟨former, former_eq⟩ := section_of_changeAt amends
  obtain ⟨depth, within⟩ := within_follow sectionKeys (within_of_document loads)
  rw [former_eq] at within kept
  rw [follow_onReals, found] at others
  have previous : override.previous = (ofDocument (.object former)).1.provider := by
    obtain ⟨_, first⟩ := read_eq loads
    rw [former_eq] at first
    exact (Prod.mk.inj (Except.ok.inj (read.symm.trans first))).1
  have undone : (ofDocument (onReals again (.object final))).1 = (ofDocument (.object former)).1
      ↔ ¬ CatalogSettings.Withholds (.object former) := by
    cases within with
    | object formerAscending =>
        rw [CatalogSettings.settings_ofDocument_onReals]
        refine CatalogSettings.settings_eq_iff again formerAscending ascending (previous ▸ held)
          fun key different => (others key different).trans ?_
        change (onReals again (.object fields)).get? key = _
        rw [get?_onReals]
        exact congrArg (Option.map _) (kept key different)
  rw [← former_eq] at undone
  exact ⟨document, _, noted, _, _, loads, settings, restored, shown, undone,
    CatalogSettings.configuration_inj.trans undone⟩

/-- A settings file with a provider that is none, and a version next to it. -/
def withholding : SettingsFile :=
  let path := Path.ofText "/desk/.zed/settings.json"
  let content := Bytes.ofText
    ("\x7b\"lsp\":\x7b\"camel-lsp-server\":\x7b\"settings\":\x7b\"camel\":\x7b"
      ++ "\"Camel catalog runtime provider\":\"TOMCAT\",\"Camel catalog version\":\"4.8.0\""
      ++ "\x7d\x7d\x7d\x7d\x7d")
  ofProject ((FileChange.write path content).apply {}).1 (Path.ofText "/desk")

set_option maxRecDepth 4096 in
/-- A file whose settings are the same again after the release of an override. -/
theorem settings_released_nested
    : ∃ document before noted after logged,
        nested.document = .ok document
        ∧ nested.catalogSettings = .ok (before, noted)
        ∧ (ProviderStore.change (.ofProvider none) (Override.take .karaf nested).1).2 = .ok ()
        ∧ (Override.release ⟨none⟩ (Override.take .karaf nested).1).1.catalogSettings
          = .ok (after, logged)
        ∧ (after = before
          ↔ ¬ CatalogSettings.Withholds ((follow sectionKeys document).getD (.object [])))
        ∧ (after.configuration = before.configuration
          ↔ ¬ CatalogSettings.Withholds ((follow sectionKeys document).getD (.object []))) := by
  have sound : nested.tree.Sound := FileTree.durable_sound.apply (.empty []) _
  exact @settings_released .karaf nested ⟨none⟩ sound rfl

/-- A version is sent after the release of an override that was not sent before it. -/
theorem not_undone_withholding
    : (Override.take .karaf withholding).2.1.toOption = some ⟨none⟩
      ∧ (ProviderStore.change (.ofProvider none)
          (Override.take .karaf withholding).1).2.toOption = some ()
      ∧ withholding.catalogSettings.toOption.map Prod.fst = some ⟨none, none⟩
      ∧ (Override.release ⟨none⟩
          (Override.take .karaf withholding).1).1.catalogSettings.toOption.map Prod.fst
        = some ⟨some "4.8.0", none⟩ := by
  decide +kernel

end SettingsFile

end RouteDesk
