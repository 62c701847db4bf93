import RouteDesk.Proofs.Catalog.Saved
import RouteDesk.Proofs.Json.Reals

/-! Which provider a settings file shows after a change of the provider. The section shows what was
written into it unless a section within it hides it, or the version next to it is no text.
-/

namespace RouteDesk

open Json (Fields onReals onRealsFields onRealsItems)
open SettingsFile (follow)

-----------------------------------------------------------------------------------------
-- Documents whose real numbers were read again
-----------------------------------------------------------------------------------------

section Again

variable (again : Float → Float)

theorem get?_onRealsFields (fields : Fields) (name : String)
    : Fields.get? (onRealsFields again fields) name
      = (fields.get? name).map (onReals again) := by
  induction fields with
  | nil => rfl
  | cons field rest ih =>
      obtain ⟨key, value⟩ := field
      rw [onRealsFields, Fields.get?_cons, Fields.get?_cons]
      split
      · rfl
      · exact ih

theorem get?_onReals (document : Json) (name : String)
    : (document.onReals again).get? name = (document.get? name).map (onReals again) := by
  cases document with
  | object fields => exact get?_onRealsFields again fields name
  | _ => rfl

/-- Keys lead to the same place, by induction on them. -/
theorem follow_onReals (keys : List String) (document : Json)
    : follow keys (document.onReals again) = (follow keys document).map (onReals again) := by
  induction keys generalizing document with
  | nil => rfl
  | cons key rest ih =>
      rw [follow, follow, get?_onReals]
      cases document.get? key with
      | none => rfl
      | some value => exact ih value

end Again

namespace CatalogSettings

section Again

variable (again : Float → Float)

theorem toOption_textOf_onReals (document : Json)
    : (optional textOf (document.onReals again)).toOption
      = (optional textOf document).toOption := by
  cases document <;> rfl

theorem toOption_provider_onReals (document : Json)
    : (optional Provider.ofJson (document.onReals again)).toOption
      = (optional Provider.ofJson document).toOption := by
  cases document with
  | object fields =>
      match fields with
      | [] => rfl
      | [(name, content)] =>
          simp only [onReals, onRealsFields, optional, Provider.ofJson]
          cases Provider.named name with
          | error mismatch => rfl
          | ok provider => cases content <;> rfl
      | _ :: _ :: _ => rfl
  | _ => rfl

/-- What is read from fields does not depend on real numbers, by induction on the fields. -/
theorem toOption_ofFields_onReals (settings : CatalogSettings) (fields : Fields)
    : (ofFields settings (onRealsFields again fields)).toOption
      = (ofFields settings fields).toOption := by
  induction fields generalizing settings with
  | nil => rfl
  | cons field rest ih =>
      obtain ⟨key, value⟩ := field
      have provider := toOption_provider_onReals again value
      have version := toOption_textOf_onReals again value
      rw [onRealsFields, ofFields, ofFields]
      split
      · cases left : optional Provider.ofJson (value.onReals again) <;>
          cases right : optional Provider.ofJson value <;> rw [left, right] at provider
        · rfl
        · cases provider
        · cases provider
        · obtain rfl := Option.some.inj provider
          exact ih _
      · split
        · cases left : optional textOf (value.onReals again) <;>
            cases right : optional textOf value <;> rw [left, right] at version
          · rfl
          · cases version
          · cases version
          · obtain rfl := Option.some.inj version
            exact ih _
        · exact ih _

theorem getD_onRealsItems (items : List Json) (index : Nat)
    : (onRealsItems again items).getD index .null = (items.getD index .null).onReals again := by
  induction items generalizing index with
  | nil => rfl
  | cons item rest ih =>
      cases index with
      | zero => rfl
      | succ index => exact ih index

theorem length_onRealsItems (items : List Json)
    : (onRealsItems again items).length = items.length := by
  induction items with
  | nil => rfl
  | cons item rest ih => rw [onRealsItems, List.length_cons, List.length_cons, ih]

/-- What is read from a section does not depend on real numbers. -/
theorem toOption_ofSection_onReals (document : Json)
    : (ofSection (document.onReals again)).toOption = (ofSection document).toOption := by
  cases document with
  | object fields => exact toOption_ofFields_onReals again {} fields
  | list items =>
      have version := toOption_textOf_onReals again (items.getD 0 .null)
      have provider := toOption_provider_onReals again (items.getD 1 .null)
      change (ofItems (onRealsItems again items)).toOption = (ofItems items).toOption
      unfold ofItems
      rw [getD_onRealsItems, getD_onRealsItems, length_onRealsItems]
      cases leftV : optional textOf ((items.getD 0 .null).onReals again) <;>
        cases rightV : optional textOf (items.getD 0 .null) <;> rw [leftV, rightV] at version
      · rfl
      · cases version
      · cases version
      obtain rfl := Option.some.inj version
      cases leftP : optional Provider.ofJson ((items.getD 1 .null).onReals again) <;>
        cases rightP : optional Provider.ofJson (items.getD 1 .null) <;>
        rw [leftP, rightP] at provider
      · rfl
      · cases provider
      · cases provider
      obtain rfl := Option.some.inj provider
      rfl
  | _ => rfl

end Again

/-- What a field is read as, where an absent one leaves what there was before. -/
def fieldOf {α : Type} (read : Json → Except Mismatch α) (fields : Fields) (key : String)
    (before : Option α)
    : Option (Option α) :=
  match fields.get? key with
  | some value => (optional read value).toOption
  | none => some before

/-- Fields are read by their names: the provider and the version, both or nothing. Witness:
induction on the fields, none of which comes twice.
-/
theorem toOption_ofFields {fields : Fields} (ascending : fields.Ascending)
    (settings : CatalogSettings)
    : (ofFields settings fields).toOption
      = (fieldOf Provider.ofJson fields providerKey settings.provider).bind fun provider =>
          (fieldOf textOf fields versionKey settings.version).map fun version =>
            ⟨version, provider⟩ := by
  induction fields generalizing settings with
  | nil => rfl
  | cons field rest ih =>
      obtain ⟨key, value⟩ := field
      obtain ⟨above, later⟩ := List.pairwise_cons.mp ascending
      have once : Fields.get? rest key = none := Fields.get?_eq_none_of_lt above
      have different : versionKey ≠ providerKey := by decide
      rw [ofFields]
      unfold fieldOf
      rw [Fields.get?_cons, Fields.get?_cons]
      split
      case isTrue same =>
        subst same
        rw [if_pos rfl, if_neg different]
        dsimp only
        cases read : optional Provider.ofJson value with
        | error mismatch => rfl
        | ok provider =>
            refine (ih later _).trans ?_
            rw [fieldOf, once]
            rfl
      case isFalse notProvider =>
        rw [if_neg (Ne.symm notProvider)]
        split
        case isTrue same =>
          subst same
          rw [if_pos rfl]
          dsimp only
          cases read : optional textOf value with
          | error mismatch =>
              change none = Option.bind _ fun _ => none
              rw [Option.bind_fun_none]
          | ok version =>
              refine (ih later _).trans ?_
              unfold fieldOf
              rw [once]
              rfl
        case isFalse notVersion =>
          rw [if_neg (Ne.symm notVersion)]
          exact ih later settings

-----------------------------------------------------------------------------------------
-- The provider of a section
-----------------------------------------------------------------------------------------

theorem settings_ofDocument (document : Json)
    : (ofDocument document).1 = (ofSection (sectionOf document)).toOption.getD {} := by
  unfold ofDocument
  cases ofSection (sectionOf document) <;> rfl

theorem settings_ofDocument_onReals (again : Float → Float) (document : Json)
    : (ofDocument (document.onReals again)).1 = (ofDocument document).1 := by
  have moved : sectionOf (document.onReals again) = (sectionOf document).onReals again := by
    unfold sectionOf
    rw [get?_onReals]
    cases document.get? sectionKey <;> rfl
  rw [settings_ofDocument, settings_ofDocument, moved, toOption_ofSection_onReals]

theorem provider_ofDocument (document : Json)
    : (ofDocument document).1.provider
      = (ofSection (sectionOf document)).toOption.bind CatalogSettings.provider := by
  rw [settings_ofDocument]
  cases (ofSection (sectionOf document)).toOption <;> rfl

theorem provider_ofDocument_onReals (again : Float → Float) (document : Json)
    : (ofDocument (document.onReals again)).1.provider = (ofDocument document).1.provider := by
  rw [settings_ofDocument_onReals]

/-- Whether a section shows a change of the provider that was made in it. A section within it is
read in its place, and a version that is neither a text nor null leaves everything unset.
-/
def Shows (change : Change) (document : Json) : Prop :=
  match document.get? sectionKey with
  | some inner => (ofSection inner).toOption.bind CatalogSettings.provider = change.provider?
  | none =>
    change = .clear
    ∨ ∀ version, document.get? versionKey = some version →
        version = .null ∨ ∃ text, version = .text text

/-- It depends only on what is next to the provider. -/
theorem shows_congr {change : Change} {first second : Json}
    (same : ∀ key, key ≠ providerKey → first.get? key = second.get? key)
    : Shows change first ↔ Shows change second := by
  unfold Shows
  rw [same sectionKey (by decide), same versionKey (by decide)]

/-- A version is read if it is absent, null or a text. -/
theorem isSome_version_iff (fields : Fields)
    : (fieldOf textOf fields versionKey none).isSome = true
      ↔ ∀ version, fields.get? versionKey = some version →
          version = .null ∨ ∃ text, version = .text text := by
  unfold fieldOf
  cases fields.get? versionKey with
  | none => simp
  | some value => cases value <;> simp [optional, textOf, Except.map, Except.toOption]

theorem provider_of_change {change : Change} {fields : Fields}
    (held : fields.get? providerKey
      = change.provider?.map fun provider => .text provider.name)
    : fieldOf Provider.ofJson fields providerKey none = some change.provider? := by
  unfold fieldOf
  rw [held]
  cases change with
  | clear => rfl
  | set provider => cases provider <;> rfl

/-- A section that holds the provider of a change is read as having it exactly if it shows the
change.
-/
theorem provider_eq_iff {change : Change} {fields : Fields} (ascending : fields.Ascending)
    (held : fields.get? providerKey
      = change.provider?.map fun provider => .text provider.name)
    : (ofDocument (.object fields)).1.provider = change.provider?
      ↔ Shows change (.object fields) := by
  rw [provider_ofDocument]
  unfold Shows sectionOf
  cases (Json.object fields).get? sectionKey with
  | some inner => rfl
  | none =>
      have read := toOption_ofFields ascending {}
      rw [provider_of_change held] at read
      change ((ofFields {} fields).toOption.bind _ = _) ↔ _
      rw [read]
      change _ ↔ change = .clear ∨ ∀ version, fields.get? versionKey = some version → _
      rw [← isSome_version_iff]
      cases fieldOf textOf fields versionKey none <;> cases change <;>
        simp [Change.provider?]

end CatalogSettings

open CatalogSettings (Shows)

namespace SettingsFile

/-- Only a file that loads is changed. -/
theorem loads_of_change {change : Change} {file : SettingsFile}
    (done : (ProviderStore.change change file).2 = .ok ())
    : ∃ before, file.document = .ok before := by
  cases loads : file.document with
  | ok before => exact ⟨before, rfl⟩
  | error reason =>
      rw [change_of_unloaded loads] at done
      cases done

/-- What an amended section holds: the new value under its name, and next to it what was there
before.
-/
theorem section_of_amended {keys : List String} {name : String} {held : Option Json}
    {before after : Json} (amended : Amended keys name held before after)
    : ∃ fields : Fields,
        follow keys after = some (.object fields) ∧ fields.Ascending
        ∧ fields.get? name = held
        ∧ ∀ key, key ≠ name →
            fields.get? key = ((follow keys before).getD (.object [])).get? key := by
  obtain ⟨fields, found, ascending⟩ := amended.way keys List.prefix_rfl
  have value (key : String) : follow (keys ++ [key]) after = fields.get? key := by
    rw [follow_append, found]
    exact follow_singleton key fields
  refine ⟨fields, found, ascending, ?_, fun key different => ?_⟩
  · rw [← value, amended.changed]
  · have aside : ¬ keys ++ [key] <+: keys := fun inside => by
      have := inside.length_le
      rw [List.length_append, List.length_singleton] at this
      omega
    have apart : ¬ keys ++ [name] <+: keys ++ [key] := fun inside => by
      have same := inside.eq_of_length (by simp)
      exact different (List.singleton_inj.mp (List.append_cancel_left same)).symm
    rw [← value, amended.others _ aside apart, follow_append]
    cases follow keys before with
    | none => rfl
    | some section_ =>
        change (section_.get? key).bind (follow []) = section_.get? key
        exact Option.bind_fun_some _

/-- The settings in a changed file are those of a section that holds the provider of the change and,
next to it, what was there before.
-/
theorem settings_of_change {fine : Float → Prop} {again : Float → Float}
    (rereads : ∀ value, fine value → Json.Rereads value (again value))
    {change : Change} {file : SettingsFile} {before : Json} (sound : file.tree.Sound)
    (loads : file.document = .ok before)
    (within : Json.Within fine Json.Reading.depthLimit before)
    (done : (ProviderStore.change change file).2 = .ok ())
    : ∃ fields : Fields,
        fields.Ascending
        ∧ fields.get? CatalogSettings.providerKey
          = change.provider?.map (fun provider => .text provider.name)
        ∧ (∀ key, key ≠ CatalogSettings.providerKey →
            fields.get? key = ((follow sectionKeys before).getD (.object [])).get? key)
        ∧ (ProviderStore.change change file).1.catalogSettings
          = .ok (CatalogSettings.ofDocument (Json.onReals again (.object fields))) := by
  obtain ⟨after, amended, -, loaded⟩ := amended_of_change rereads sound loads within done
  obtain ⟨fields, found, ascending, held, others⟩ := section_of_amended amended
  refine ⟨fields, ascending, held, others, ?_⟩
  unfold catalogSettings
  rw [loaded]
  dsimp only
  rw [follow_onReals, found]
  rfl

/-- A changed file is read, whatever it held before, and shows the change exactly if its section
does.
-/
theorem read_of_change {change : Change} {file : SettingsFile} {before : Json}
    (sound : file.tree.Sound) (loads : file.document = .ok before)
    (done : (ProviderStore.change change file).2 = .ok ())
    : ∃ provider log,
        ProviderStore.read (ProviderStore.change change file).1 = .ok (provider, log)
        ∧ (provider = change.provider?
          ↔ Shows change ((follow sectionKeys before).getD (.object []))) := by
  obtain ⟨again, rereads⟩ := Json.exists_again
  obtain ⟨fields, ascending, held, others, settings⟩ :=
    settings_of_change rereads sound loads (within_of_document loads) done
  refine ⟨(CatalogSettings.ofDocument (Json.onReals again (.object fields))).1.provider,
    (CatalogSettings.ofDocument (Json.onReals again (.object fields))).2, ?_, ?_⟩
  · change (catalogSettings _).map _ = _
    rw [settings]
    rfl
  · rw [CatalogSettings.provider_ofDocument_onReals,
      CatalogSettings.provider_eq_iff ascending held]
    exact CatalogSettings.shows_congr others

/-- After a successful change of the provider the file is read, and it shows the provider exactly
if the section from before shows the change; where there was no section it does.
-/
theorem read_change {change : Change} {file : SettingsFile} (sound : file.tree.Sound)
    (done : (ProviderStore.change change file).2 = .ok ())
    : ∃ before provider log,
        file.document = .ok before
        ∧ ProviderStore.read (ProviderStore.change change file).1 = .ok (provider, log)
        ∧ (provider = change.provider?
          ↔ Shows change ((follow sectionKeys before).getD (.object []))) := by
  obtain ⟨before, loads⟩ := loads_of_change done
  obtain ⟨provider, log, read, shows'⟩ := read_of_change sound loads done
  exact ⟨before, provider, log, loads, read, shows'⟩

/-- A settings file with a section within the section. -/
def nested : SettingsFile :=
  let path := Path.ofText "/desk/.zed/settings.json"
  let content := Bytes.ofText
    ("\x7b\"lsp\":\x7b\"camel-lsp-server\":\x7b\"settings\":\x7b\"camel\":\x7b\"camel\":"
      ++ "\x7b\x7d\x7d\x7d\x7d\x7d\x7d")
  ofProject ((FileChange.write path content).apply {}).1 (Path.ofText "/desk")

set_option maxRecDepth 4096 in
/-- The section within the section shows no provider, so neither does the file. -/
theorem read_change_nested
    : ∃ before provider log,
        nested.document = .ok before
        ∧ ProviderStore.read (ProviderStore.change (.set .karaf) nested).1 = .ok (provider, log)
        ∧ (provider = some .karaf
          ↔ Shows (.set .karaf) ((follow sectionKeys before).getD (.object []))) := by
  have sound : nested.tree.Sound := FileTree.durable_sound.apply (.empty []) _
  exact read_change sound rfl

set_option maxRecDepth 4096 in
/-- A provider is not shown although it was set. -/
theorem not_shown_nested
    : (ProviderStore.change (.set .karaf) nested).2 = .ok ()
      ∧ ProviderStore.read (ProviderStore.change (.set .karaf) nested).1 = .ok (none, []) :=
  ⟨rfl, rfl⟩

end SettingsFile

end RouteDesk
