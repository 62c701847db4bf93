import RouteDesk.Proofs.Catalog.Shown

/-! Sections as they are read and as they are written. A section is read by one grammar, all or
nothing, and what is written for settings is read as these settings again.
-/

namespace RouteDesk

open Json (Fields)

namespace CatalogSettings

-----------------------------------------------------------------------------------------
-- The grammar of sections
-----------------------------------------------------------------------------------------

/-- The part of a document that is its section: what an object holds under the name of the section,
be it null, and otherwise the whole document.
-/
inductive HasSection : Json → Json → Prop
  | own {fields : Fields} {part : Json} (held : fields.get? sectionKey = some part)
    : HasSection (.object fields) part
  | whole {document : Json}
    (apart : ∀ fields, document = .object fields → Fields.get? fields sectionKey = none)
    : HasSection document document

/-- What may stand in the place of a version, and the version that it is. -/
inductive IsVersion : Option Json → Option String → Prop
  | absent : IsVersion none none
  | null : IsVersion (some .null) none
  | text (version : String) : IsVersion (some (.text version)) (some version)

/-- What may stand in the place of a provider, and the provider that it is: the name of one, or an
object that holds a null under this name and nothing else.
-/
inductive IsProvider : Option Json → Option Provider → Prop
  | absent : IsProvider none none
  | null : IsProvider (some .null) none
  | name (provider : Provider) : IsProvider (some (.text provider.name)) (some provider)
  | only (provider : Provider)
    : IsProvider (some (.object [(provider.name, .null)])) (some provider)

/-- What may stand for a section, and the settings that it is: an object in which other keys do not
matter, or a list with places for a version and a provider.
-/
inductive IsSection : Json → CatalogSettings → Prop
  | object {fields : Fields} {version : Option String} {provider : Option Provider}
    (versionHeld : IsVersion (fields.get? versionKey) version)
    (providerHeld : IsProvider (fields.get? providerKey) provider)
    : IsSection (.object fields) ⟨version, provider⟩
  | list {items : List Json} {version : Option String} {provider : Option Provider}
    (short : items.length ≤ 2) (versionHeld : IsVersion items[0]? version)
    (providerHeld : IsProvider items[1]? provider)
    : IsSection (.list items) ⟨version, provider⟩

theorem hasSection_iff {document part : Json}
    : HasSection document part ↔ part = sectionOf document := by
  constructor
  · intro section_
    cases section_ with
    | own held =>
        change _ = (Fields.get? _ sectionKey).getD _
        rw [held]
        rfl
    | whole apart =>
        cases document with
        | object fields =>
            change _ = (Fields.get? fields sectionKey).getD _
            rw [apart fields rfl]
            rfl
        | _ => rfl
  · rintro rfl
    cases document with
    | object fields =>
        cases held : Fields.get? fields sectionKey with
        | none =>
            have bare : sectionOf (.object fields) = .object fields := by
              change (Fields.get? fields sectionKey).getD _ = _
              rw [held]
              rfl
            rw [bare]
            exact .whole fun others same => Json.object.inj same ▸ held
        | some part =>
            refine .own ?_
            change _ = some ((Fields.get? fields sectionKey).getD _)
            rw [held]
            rfl
    | _ => exact .whole nofun

-----------------------------------------------------------------------------------------
-- Reading by the grammar
-----------------------------------------------------------------------------------------

/-- Null and nothing are read alike. -/
theorem fieldOf_eq {α : Type} (read : Json → Except Mismatch α) (fields : Fields) (key : String)
    : fieldOf read fields key none = (optional read ((fields.get? key).getD .null)).toOption := by
  unfold fieldOf
  cases fields.get? key <;> rfl

theorem isVersion_iff {held : Option Json} {version : Option String}
    : IsVersion held version ↔ (optional textOf (held.getD .null)).toOption = some version := by
  constructor
  · rintro (_ | _ | _) <;> rfl
  · intro read
    cases held with
    | none =>
        obtain rfl := Option.some.inj read
        exact .absent
    | some value =>
        cases value with
        | null =>
            obtain rfl := Option.some.inj read
            exact .null
        | text =>
            obtain rfl := Option.some.inj read
            exact .text _
        | _ => cases read

theorem named_eq_ok_iff {name : String} {provider : Provider}
    : Provider.named name = .ok provider ↔ name = provider.name := by
  constructor
  · intro found
    unfold Provider.named Provider.ofName? at found
    split at found
    case h_1 other among =>
      obtain rfl := Except.ok.inj found
      have same := List.find?_some among
      exact (beq_iff_eq.mp same).symm
    case h_2 => cases found
  · rintro rfl
    rw [Provider.named, Provider.ofName?_name]

theorem ofJson_eq_ok_iff {document : Json} {provider : Provider}
    : Provider.ofJson document = .ok provider
      ↔ document = .text provider.name ∨ document = .object [(provider.name, .null)] := by
  constructor
  · intro read
    unfold Provider.ofJson at read
    split at read
    case h_1 name => exact .inl (congrArg Json.text (named_eq_ok_iff.mp read))
    case h_2 name content =>
      split at read
      case h_1 => cases read
      case h_2 other found =>
        obtain rfl := Except.ok.inj read
        obtain rfl := named_eq_ok_iff.mp found
        exact .inr rfl
      case h_3 => cases read
    case h_3 => cases read
    case h_4 => cases read
  · rintro (rfl | rfl)
    · exact named_eq_ok_iff.mpr rfl
    · cases provider <;> rfl

theorem isProvider_iff {held : Option Json} {provider : Option Provider}
    : IsProvider held provider
      ↔ (optional Provider.ofJson (held.getD .null)).toOption = some provider := by
  constructor
  · rintro (_ | _ | provider | provider)
    · rfl
    · rfl
    · cases provider <;> rfl
    · cases provider <;> rfl
  · intro read
    cases held with
    | none =>
        obtain rfl := Option.some.inj read
        exact .absent
    | some value =>
        by_cases null : value = .null
        case pos =>
          subst null
          obtain rfl := Option.some.inj read
          exact .null
        case neg =>
          have same : optional Provider.ofJson value = (Provider.ofJson value).map some := by
            cases value with
            | null => exact absurd rfl null
            | _ => rfl
          change (optional Provider.ofJson value).toOption = _ at read
          rw [same] at read
          cases found : Provider.ofJson value with
          | error =>
              rw [found] at read
              cases read
          | ok own =>
              rw [found] at read
              obtain rfl := Option.some.inj read
              rcases ofJson_eq_ok_iff.mp found with rfl | rfl
              · exact .name own
              · exact .only own

/-- A list is read if it is not too long and both of its places are. -/
theorem toOption_ofItems (items : List Json)
    : (ofItems items).toOption
      = if items.length ≤ 2 then
          (optional textOf (items[0]?.getD .null)).toOption.bind fun version =>
            (optional Provider.ofJson (items[1]?.getD .null)).toOption.map fun provider =>
              ⟨version, provider⟩
        else none := by
  unfold ofItems
  rw [List.getD_eq_getElem?_getD, List.getD_eq_getElem?_getD]
  generalize optional textOf _ = version
  generalize optional Provider.ofJson _ = provider
  by_cases short : items.length ≤ 2
  · simp only [if_pos short, if_neg (Nat.not_lt.mpr short)]
    cases version <;> cases provider <;> rfl
  · simp only [if_neg short, if_pos (Nat.lt_of_not_le short)]
    cases version <;> cases provider <;> rfl

/-- Exactly what the grammar admits is read, with the values that it gives. -/
theorem isSection_iff {fine : Float → Prop} {levels : Nat} {part : Json}
    (within : Json.Within fine levels part) {settings : CatalogSettings}
    : IsSection part settings ↔ (ofSection part).toOption = some settings := by
  cases part with
  | object fields =>
      cases within with
      | object ascending =>
          change _ ↔ (ofFields {} fields).toOption = _
          rw [toOption_ofFields ascending, fieldOf_eq, fieldOf_eq]
          constructor
          · rintro ⟨versionHeld, providerHeld⟩
            rw [isVersion_iff.mp versionHeld, isProvider_iff.mp providerHeld]
            rfl
          · intro read
            obtain ⟨provider, providerRead, rest⟩ := Option.bind_eq_some_iff.mp read
            obtain ⟨version, versionRead, rfl⟩ := Option.map_eq_some_iff.mp rest
            exact .object (isVersion_iff.mpr versionRead) (isProvider_iff.mpr providerRead)
  | list items =>
      change _ ↔ (ofItems items).toOption = _
      rw [toOption_ofItems]
      constructor
      · rintro (_ | ⟨short, versionHeld, providerHeld⟩)
        rw [if_pos short, isVersion_iff.mp versionHeld, isProvider_iff.mp providerHeld]
        rfl
      · intro read
        split at read
        case isTrue short =>
          obtain ⟨version, versionRead, rest⟩ := Option.bind_eq_some_iff.mp read
          obtain ⟨provider, providerRead, rfl⟩ := Option.map_eq_some_iff.mp rest
          exact .list short (isVersion_iff.mpr versionRead) (isProvider_iff.mpr providerRead)
        case isFalse => cases read
  | _ => exact ⟨nofun, nofun⟩

/-- How a document is read, in view of the part of it that is its section. -/
structure ReadByGrammar (document part : Json) : Prop where
  /-- What the grammar admits is read with the values that it gives, and nothing is said. -/
  read (settings : CatalogSettings)
    : IsSection part settings ↔ ofDocument document = (settings, [])
  /-- Anything else leaves everything unset, with one warning. -/
  refused
    : (¬ ∃ settings, IsSection part settings)
      ↔ ∃ mismatch : Mismatch, ofDocument document
          = ({}, [⟨.warn, s!"ignoring malformed Camel settings: {mismatch.message}"⟩])

theorem within_sectionOf {fine : Float → Prop} {levels : Nat} {document : Json}
    (within : Json.Within fine levels document)
    : ∃ depth, Json.Within fine depth (sectionOf document) := by
  unfold sectionOf
  cases held : document.get? sectionKey with
  | none => exact ⟨_, within⟩
  | some part =>
      cases within with
      | object _ all => exact ⟨_, all _ (Fields.mem_of_get?_eq_some held)⟩
      | _ => cases held

/-- A document has one section, which is read by the grammar of sections. -/
theorem readByGrammar_of_within {fine : Float → Prop} {levels : Nat} {document : Json}
    (within : Json.Within fine levels document)
    : ∃ part, (∀ other, HasSection document other ↔ other = part)
        ∧ ReadByGrammar document part := by
  obtain ⟨_, inside⟩ := within_sectionOf within
  refine ⟨sectionOf document, fun _ => hasSection_iff, ?_⟩
  cases read : ofSection (sectionOf document) with
  | ok settings =>
      have admitted := (isSection_iff inside).mpr (congrArg Except.toOption read)
      refine ⟨fun other => ?_, iff_of_false (fun none' => none' ⟨settings, admitted⟩) ?_⟩
      · rw [isSection_iff inside, read]
        simp [ofDocument, read, Except.toOption]
      · rintro ⟨mismatch, same⟩
        simp [ofDocument, read] at same
  | error mismatch =>
      have refused : ¬ ∃ settings, IsSection (sectionOf document) settings := by
        rintro ⟨settings, admitted⟩
        have found := (isSection_iff inside).mp admitted
        rw [read] at found
        cases found
      refine ⟨fun other => iff_of_false (fun admitted => refused ⟨other, admitted⟩) ?_,
        iff_of_true refused ⟨mismatch, ?_⟩⟩
      · simp [ofDocument, read]
      · simp [ofDocument, read]

/-- A document whose section is a list, with an object in the place of the provider. -/
def positional : Json :=
  .object [(versionKey, .text "4.8.0"), (sectionKey, .list [.null, .object [("KARAF", .null)]])]

/-- The list is read, and not the version next to it. -/
theorem readByGrammar_of_within_positional
    : Json.Within (fun _ => False) 3 positional
      ∧ ofDocument positional = (⟨none, some .karaf⟩, [])
      ∧ ∃ part, (∀ other, HasSection positional other ↔ other = part)
          ∧ ReadByGrammar positional part := by
  have within : Json.Within (fun _ => False) 3 positional := by
    have provider : Json.Within (fun _ => False) 1 (.object [("KARAF", .null)]) :=
      .object (List.pairwise_singleton _ _) fun field member => List.mem_singleton.mp member ▸ .null
    have items : Json.Within (fun _ => False) 2 (.list [.null, .object [("KARAF", .null)]]) := by
      refine .list fun item member => ?_
      rcases List.mem_pair.mp member with rfl | rfl
      · exact .null
      · exact provider
    have ascending : Json.Fields.Ascending
        [(versionKey, .text "4.8.0"), (sectionKey, .list [.null, .object [("KARAF", .null)]])] :=
      List.pairwise_pair.mpr (by decide)
    refine .object ascending fun field member => ?_
    rcases List.mem_pair.mp member with rfl | rfl
    · exact .text _
    · exact items
  exact ⟨within, rfl, readByGrammar_of_within within⟩

-----------------------------------------------------------------------------------------
-- Sections that are written
-----------------------------------------------------------------------------------------

/-- A section that was made for settings is read as these settings. -/
theorem ofSection_toSection (settings : CatalogSettings)
    : ofSection settings.toSection = .ok settings := by
  obtain ⟨version, provider⟩ := settings
  have different : versionKey ≠ providerKey := by decide
  have versionRead (before : CatalogSettings)
      : ofFields before ((version.map fun version => (versionKey, Json.text version)).toList)
        = .ok { before with version := version.or before.version } := by
    cases version with
    | none => rfl
    | some version => simp [ofFields, different, optional, textOf, Except.map]
  cases provider with
  | none => exact (versionRead {}).trans (by simp)
  | some provider =>
      have read : optional Provider.ofJson (.text provider.name) = .ok (some provider) := by
        cases provider <;> rfl
      change ofFields {} ((providerKey, .text provider.name) :: _) = _
      rw [ofFields, if_pos rfl, read]
      exact (versionRead _).trans (by simp)

/-- Different settings are sent as different configurations. -/
theorem configuration_inj {first second : CatalogSettings}
    : first.configuration = second.configuration ↔ first = second := by
  refine ⟨fun same => ?_, congrArg _⟩
  have sameSection : first.toSection = second.toSection :=
    (Prod.mk.inj (List.cons.inj (Json.object.inj same)).1).2
  have read := congrArg ofSection sameSection
  rw [ofSection_toSection, ofSection_toSection] at read
  exact Except.ok.inj read

/-- The fields are serialised into the order of their keys. -/
theorem serialized_eq_toSection (settings : CatalogSettings)
    : settings.serialized = settings.toSection := by
  obtain ⟨version, provider⟩ := settings
  have before : providerKey < versionKey := by decide
  cases version with
  | none =>
      cases provider with
      | none => rfl
      | some provider =>
          simp [serialized, toSection, fields, Fields.put, provider.serialName_eq_name]
  | some version =>
      cases provider with
      | none => rfl
      | some provider =>
          simp [serialized, toSection, fields, Fields.put, before, provider.serialName_eq_name]

/-- A section that was made for settings stands for itself in a document. -/
theorem sectionOf_toSection (settings : CatalogSettings)
    : sectionOf settings.toSection = settings.toSection := by
  obtain ⟨version, provider⟩ := settings
  cases version <;> cases provider <;> rfl

theorem ofDocument_of_ofSection {document : Json} {settings : CatalogSettings}
    (read : ofSection (sectionOf document) = .ok settings)
    : ofDocument document = (settings, []) := by
  rw [ofDocument, read]

theorem ofDocument_configuration (settings : CatalogSettings)
    : ofDocument settings.configuration = (settings, []) :=
  ofDocument_of_ofSection (ofSection_toSection settings)

/-- What is written for settings, and how it is read. -/
structure ReadsBack (settings : CatalogSettings) : Prop where
  /-- The configuration is the serialised settings under the name of the section. -/
  wrapped : settings.configuration = .object [(sectionKey, settings.serialized)]
  configuration : ofDocument settings.configuration = (settings, [])
  serialized : ofDocument settings.serialized = (settings, [])

/-- What is written for settings is read as these settings, be they what was read from a document,
so that different settings are written differently.
-/
theorem readsBack_all (settings other : CatalogSettings) (document : Json)
    : ReadsBack settings
      ∧ ofDocument (ofDocument document).1.configuration = ((ofDocument document).1, [])
      ∧ (settings.configuration = other.configuration ↔ settings = other) := by
  refine ⟨⟨?_, ofDocument_configuration settings, ?_⟩, ofDocument_configuration _,
    configuration_inj⟩
  · rw [serialized_eq_toSection]
    rfl
  · refine ofDocument_of_ofSection ?_
    rw [serialized_eq_toSection, sectionOf_toSection, ofSection_toSection]

end CatalogSettings

end RouteDesk
