import RouteDesk.Proofs.Catalog.Commented
import RouteDesk.Proofs.Catalog.Override

/-! Settings files of nothing but white space and comments. Whether a file is blank is asked of its
text as it stands, comments included. So such a file counts as an empty one only as long as there is
no comment in it; with one it is refused, for there is no value to read.
-/

namespace RouteDesk.SettingsFile

open Json (IsRemarks)

/-- A file that is read and changed as if there were none. -/
structure CountsAsEmpty (file : SettingsFile) : Prop where
  document : file.document = .ok (.object [])
  provider : ProviderStore.read file = .ok (none, [])
  /-- Every change succeeds. -/
  succeeds (change : Change) : (ProviderStore.change change file).2 = .ok ()
  /-- It leaves the bytes that it would leave where there is no file. -/
  bytes (change : Change) {absent : SettingsFile} (sound : absent.tree.Sound)
    (missing : absent.tree.readText absent.path = .error .missing)
    (done : (ProviderStore.change change absent).2 = .ok ())
    : ∃ content,
        (ProviderStore.change change file).1.tree.read file.path = .ok content
        ∧ (ProviderStore.change change absent).1.tree.read absent.path = .ok content

/-- A file in which no value is found: neither is it read nor changed. -/
structure IsRefused (file : SettingsFile) (error : Json.ReadError) : Prop where
  findsNoValue : error.FindsNoValue
  document : file.document = .error (.malformed file.path error)
  provider : ProviderStore.read file = .error (.malformed file.path error)
  change (change : Change)
    : ProviderStore.change change file = (file, .error (.malformed file.path error))

/-- What a change leaves in a file is told by the document from before. -/
theorem read_of_saved {file : SettingsFile} {before changed : Json} {change : Change}
    (sound : file.tree.Sound) (loads : file.document = .ok before)
    (found : before.changeAt change.onFields CatalogSettings.sectionKey sectionKeys = .ok changed)
    (done : (ProviderStore.change change file).2 = .ok ())
    : (ProviderStore.change change file).1.tree.read file.path = .ok changed.render := by
  obtain ⟨other, foundToo, saves⟩ := save_of_change loads done
  obtain rfl := Except.ok.inj (found.symm.trans foundToo)
  rw [saves] at done ⊢
  exact FileTree.read_of_writeWithParents sound (written_of_save done)

theorem passable_empty : Passable (.object []) := by
  intro front _
  cases front with
  | nil => exact .inr ⟨[], rfl⟩
  | cons => exact .inl rfl

/-- A file that can be read and holds an empty object counts as an empty one. -/
theorem countsAsEmpty_of_document {file : SettingsFile} {content : Bytes}
    (sound : file.tree.Sound) (held : file.tree.read file.path = .ok content)
    (loads : file.document = .ok (.object []))
    : CountsAsEmpty file where
  document := loads
  provider := by
    change file.catalogSettings.map _ = _
    rw [catalogSettings, loads]
    rfl
  succeeds change := changed_of_passable held loads passable_empty change
  bytes change absent soundToo missing done := by
    have loadsToo : absent.document = .ok (.object []) := by
      rw [SettingsFile.document, missing]
    have changes := changed_of_passable held loads passable_empty change
    obtain ⟨changed, found, -⟩ := save_of_change loadsToo done
    exact ⟨_, read_of_saved sound loads found changes, read_of_saved soundToo loadsToo found done⟩

theorem isRefused_of_document {file : SettingsFile} {error : Json.ReadError}
    (noValue : error.FindsNoValue) (refused : file.document = .error (.malformed file.path error))
    : IsRefused file error where
  findsNoValue := noValue
  document := refused
  provider := by
    change file.catalogSettings.map _ = _
    rw [catalogSettings, refused]
    rfl
  change change := change_of_unloaded refused change

theorem read_of_readText {file : SettingsFile} {text : String}
    (reads : file.tree.readText file.path = .ok text)
    : ∃ content, file.tree.read file.path = .ok content := by
  unfold FileTree.readText at reads
  cases read : file.tree.read file.path with
  | ok content => exact ⟨content, rfl⟩
  | error reason =>
      rw [read] at reads
      cases reads

/-- A settings file of nothing but white space and comments counts as an empty one exactly if there
is no comment in it. With a comment it is refused.
-/
theorem countsAsEmpty_iff_of_isRemarks {file : SettingsFile} {text : String}
    (sound : file.tree.Sound) (reads : file.tree.readText file.path = .ok text)
    (remarks : IsRemarks (Bytes.ofText text))
    : (CountsAsEmpty file ↔ Text.isAllBlank text = true)
      ∧ (Text.isAllBlank text = false → ∃ error, IsRefused file error) := by
  have refused (given : Text.isAllBlank text = false) : ∃ error, IsRefused file error := by
    obtain ⟨error, found, noValue⟩ := Json.ofCommented_of_isRemarks remarks
    refine ⟨error, isRefused_of_document noValue ?_⟩
    rw [SettingsFile.document, reads]
    simp only [given, Bool.false_eq_true, if_false, found]
  refine ⟨⟨fun empty => ?_, fun blank => ?_⟩, refused⟩
  · by_contra given
    obtain ⟨error, refusal⟩ := refused (Bool.not_eq_true _ ▸ given)
    cases empty.document.symm.trans refusal.document
  · obtain ⟨content, held⟩ := read_of_readText reads
    refine countsAsEmpty_of_document sound held ?_
    rw [SettingsFile.document, reads]
    simp only [blank, if_true]

/-- White space of every kind. -/
def spacious : String := " \t\r\n\u00A0\u2003\u3000\x0B"

/-- A file of white space counts as an empty one. -/
theorem countsAsEmpty_iff_of_isRemarks_spacious
    : (holding spacious).tree.Sound
      ∧ (holding spacious).tree.readText (holding spacious).path = .ok spacious
      ∧ IsRemarks (Bytes.ofText spacious)
      ∧ (CountsAsEmpty (holding spacious) ↔ Text.isAllBlank spacious = true)
      ∧ (Text.isAllBlank spacious = false → ∃ error, IsRefused (holding spacious) error)
      ∧ Text.isAllBlank spacious = true := by
  have sound : (holding spacious).tree.Sound := FileTree.durable_sound.apply (.empty []) _
  have reads : (holding spacious).tree.readText (holding spacious).path = .ok spacious := rfl
  have blank : Text.isAllBlank spacious = true := by decide
  have remarks := Json.isRemarks_of_isAllBlank blank
  obtain ⟨counts, refused⟩ := countsAsEmpty_iff_of_isRemarks sound reads remarks
  exact ⟨sound, reads, remarks, counts, refused, blank⟩

/-- A file of nothing but a comment is refused, and one of nothing but a line break is not. -/
theorem refused_remark
    : IsRemarks (Bytes.ofText "// note\n")
      ∧ ProviderStore.read (holding "// note\n")
        = .error (.malformed (Path.ofText "/settings.json") ⟨.endInValue, some ⟨2, 0⟩⟩)
      ∧ (ProviderStore.change (.set .karaf) (holding "// note\n")).2
        = .error (.malformed (Path.ofText "/settings.json") ⟨.endInValue, some ⟨2, 0⟩⟩)
      ∧ ProviderStore.read (holding "\n") = .ok (none, [])
      ∧ (ProviderStore.change (.set .karaf) (holding "\n")).2 = .ok () := by
  have remarks : IsRemarks (Bytes.ofText "// note\n") :=
    @IsRemarks.line [0x2F, 0x2F] (Bytes.ofText " note") (Bytes.ofText "\n") (.inl rfl)
      (by decide) (.inr rfl) (@IsRemarks.blank '\n' [] rfl .done)
  exact ⟨remarks, rfl, rfl, rfl, rfl⟩

end RouteDesk.SettingsFile
