import RouteDesk.Proofs.Catalog.Amendment
import RouteDesk.Proofs.FileTree.ReadBack
import RouteDesk.Proofs.Json.Legible
import RouteDesk.Proofs.Json.Yields

/-! A settings file after a change of the provider. What was saved is loaded again, and it is
the document from before with the provider changed and nothing else.
-/

namespace RouteDesk

open Json (Within IsFinite Rereads)

/-- A text that begins with an opening brace is not blank. -/
theorem isAllBlank_eq_false {text : String} {rest : Bytes}
    (begins : Bytes.ofText text = 0x7B :: rest)
    : Text.isAllBlank text = false := by
  rw [← String.ofList_toList (s := text), Bytes.ofText_ofList] at begins
  unfold Text.isAllBlank
  cases split : text.toList with
  | nil =>
      rw [split] at begins
      cases begins
  | cons char chars =>
      rw [split, List.flatMap_cons] at begins
      have small : ¬ 128 ≤ char.val.toNat := by
        intro wide
        have nonempty : String.utf8EncodeChar char ≠ [] := by
          rw [← List.length_pos_iff_ne_nil, String.length_utf8EncodeChar]
          exact Char.utf8Size_pos char
        have first : 0x7B ∈ String.utf8EncodeChar char := by
          cases bytes : String.utf8EncodeChar char with
          | nil => exact absurd bytes nonempty
          | cons byte more =>
              rw [bytes] at begins
              obtain ⟨rfl, -⟩ := List.cons.inj begins
              exact List.mem_cons_self
        exact absurd (Bytes.le_of_mem_utf8EncodeChar wide first) (by decide)
      rw [String.utf8EncodeChar, if_pos (by omega)] at begins
      have code : char.val.toNat = 0x7B := by
        have same := congrArg UInt8.toNat (List.cons.inj begins).1
        simp only [UInt8.toNat_ofNat'] at same
        change char.val.toNat % 256 = 0x7B at same
        omega
      have notBlank : Text.isBlank char = false := by
        unfold Text.isBlank
        rw [show char.toNat = 0x7B from code]
        decide
      rw [List.all_cons, notBlank, Bool.false_and]

namespace SettingsFile

section Saving

variable {fine : Float → Prop} {again : Float → Float}

theorem begins_render (fields : Json.Fields)
    : ∃ rest, (Json.object fields).render = 0x7B :: rest := by
  cases fields with
  | nil => exact ⟨_, rfl⟩
  | cons => exact ⟨_, rfl⟩

theorem written_of_save {file : SettingsFile} {document : Json}
    (saved : (file.save document).2 = .ok ())
    : (file.tree.writeWithParents file.path document.render).2 = .ok () := by
  unfold save at saved
  dsimp only at saved
  split at saved
  case h_1 written => exact written
  case h_2 => cases saved

/-- A saved object is loaded again, with its real numbers read again. Witness: the file holds
the rendered document, which is text, not blank, and free of comments.
-/
theorem document_of_save (rereads : ∀ value, fine value → Rereads value (again value))
    {file : SettingsFile} (sound : file.tree.Sound) {fields : Json.Fields}
    (within : Within fine Json.Reading.depthLimit (.object fields))
    (saved : (file.save (.object fields)).2 = .ok ())
    : (file.save (.object fields)).1.document = .ok (Json.onReals again (.object fields)) := by
  have written := written_of_save saved
  have read := FileTree.read_of_writeWithParents sound written
  obtain ⟨text, holds⟩ := (Json.Legible.render rereads within).text
  obtain ⟨rest, begins⟩ := begins_render fields
  have notBlank := isAllBlank_eq_false (holds.trans begins)
  have readText : (file.save (.object fields)).1.tree.readText
      (file.save (.object fields)).1.path = .ok text := by
    unfold save FileTree.readText
    dsimp only
    rw [read, ← holds]
    dsimp only
    rw [Bytes.toText?_ofText]
  unfold document
  rw [readText]
  dsimp only
  rw [notBlank, holds, Json.ofCommented_render rereads within]
  rfl

/-- What was loaded keeps to the limits of the reader. -/
theorem within_of_document {file : SettingsFile} {before : Json}
    (loads : file.document = .ok before)
    : Within IsFinite Json.Reading.depthLimit before := by
  unfold document at loads
  split at loads
  case h_1 =>
    obtain rfl := Except.ok.inj loads
    exact .emptyObject
  case h_2 => cases loads
  case h_3 text _ =>
    split at loads
    case isTrue =>
      obtain rfl := Except.ok.inj loads
      exact .emptyObject
    case isFalse =>
      split at loads
      case h_1 document read =>
        obtain rfl := Except.ok.inj loads
        exact Json.within_of_ofCommented read
      case h_2 => cases loads

/-- A successful change amends the document that the file held, and saves it. -/
theorem save_of_change {change : Change} {file : SettingsFile} {before : Json}
    (loads : file.document = .ok before)
    (done : (ProviderStore.change change file).2 = .ok ())
    : ∃ changed, before.changeAt change.onFields CatalogSettings.sectionKey sectionKeys
          = .ok changed
        ∧ ProviderStore.change change file = file.save changed := by
  rcases change_cases change file with
    ⟨_, refused, -⟩ | ⟨_, _, -, -, same⟩ | ⟨document, changed, loadsToo, found, saves⟩
  · cases loads.symm.trans refused
  · rw [same] at done
    cases done
  · obtain rfl := Except.ok.inj (loads.symm.trans loadsToo)
    exact ⟨changed, found, saves⟩

theorem object_of_changeAt {change : Json.Fields → Json.Fields} {last : String}
    {keys : List String} {before after : Json}
    (done : before.changeAt change last keys = .ok after)
    : ∃ fields, after = .object fields := by
  cases keys with
  | nil =>
      cases before with
      | object fields => exact ⟨_, (Except.ok.inj done).symm⟩
      | _ => cases done
  | cons key rest =>
      cases before with
      | object fields =>
          rw [Json.changeAt] at done
          split at done
          case h_1 => exact ⟨_, (Except.ok.inj done).symm⟩
          case h_2 => cases done
      | _ => cases done

/-- After a successful change the file loads again: with the provider changed in the section,
and otherwise with what it held before.
-/
theorem amended_of_change (rereads : ∀ value, fine value → Rereads value (again value))
    {change : Change} {file : SettingsFile} {before : Json} (sound : file.tree.Sound)
    (loads : file.document = .ok before) (within : Within fine Json.Reading.depthLimit before)
    (done : (ProviderStore.change change file).2 = .ok ())
    : ∃ after,
        Amended sectionKeys CatalogSettings.providerKey
          (change.provider?.map fun provider => .text provider.name) before after
        ∧ Within fine Json.Reading.depthLimit after
        ∧ (ProviderStore.change change file).1.document = .ok (after.onReals again) := by
  obtain ⟨changed, found, saves⟩ := save_of_change loads done
  have deep : sectionKeys.length < Json.Reading.depthLimit := by decide
  have amended := amended_changeAt change.replaces within deep found
  have kept := within_changeAt change.within_onFields within deep found
  obtain ⟨fields, rfl⟩ := object_of_changeAt found
  rw [saves] at done ⊢
  exact ⟨_, amended, kept, document_of_save rereads sound kept done⟩

end Saving

/-- A successful change of the provider leaves exactly the document from before with the
provider set or taken away. Witness: the saved document is loaded again as it is, and no other
document is amended in that way.
-/
theorem document_change {change : Change} {file : SettingsFile} {before : Json}
    (sound : file.tree.Sound) (loads : file.document = .ok before) (free : before.RealFree)
    (done : (ProviderStore.change change file).2 = .ok ())
    : ∃ after,
        (ProviderStore.change change file).1.document = .ok after
        ∧ ∀ other,
            Amended sectionKeys CatalogSettings.providerKey
              (change.provider?.map fun provider => .text provider.name) before other
            ↔ other = after := by
  have within := (within_of_document loads).of_realFree free
  obtain ⟨after, amended, kept, loaded⟩ :=
    @amended_of_change _ id nofun _ _ _ sound loads within done
  rw [Json.onReals_of_realFree kept.realFree] at loaded
  refine ⟨after, loaded, fun other => ⟨fun same => same.unique amended, ?_⟩⟩
  rintro rfl
  exact amended

/-- A settings file with a comment and a setting of another kind. -/
def commented : SettingsFile :=
  let path := Path.ofText "/desk/.zed/settings.json"
  let content := Bytes.ofText "// kept\n\x7b\"tab_size\": 2\x7d"
  ofProject ((FileChange.write path content).apply {}).1 (Path.ofText "/desk")

/-- The comment goes when a provider is set, but the other setting stays. -/
theorem document_change_commented
    : commented.document = .ok (.object [("tab_size", .integer 2)])
      ∧ ∃ after,
          (ProviderStore.change (.set .quarkus) commented).1.document = .ok after
          ∧ ∀ other,
              Amended sectionKeys CatalogSettings.providerKey (some (.text "QUARKUS"))
                (.object [("tab_size", .integer 2)]) other
              ↔ other = after := by
  have sound : commented.tree.Sound := FileTree.durable_sound.apply (.empty []) _
  have loads : commented.document = .ok (.object [("tab_size", .integer 2)]) := rfl
  have free : (Json.object [("tab_size", .integer 2)]).RealFree :=
    .object fun field member => List.mem_singleton.mp member ▸ .integer 2
  have done : (ProviderStore.change (.set .quarkus) commented).2 = .ok () := rfl
  exact ⟨loads, document_change sound loads free done⟩

end SettingsFile

end RouteDesk
