import RouteDesk.Catalog.Store
import RouteDesk.Proofs.FileTree.Spared

/-! What a settings file and its surroundings look like after an operation on the provider has
failed. Nothing is written before the document was loaded and the way to its section was found to
consist of objects, and a write that fails has at most made directories.
-/

namespace RouteDesk.SettingsFile

/-- A failed change has left the file alone: it keeps its path, all regular files hold what they
held, and nothing at all is different unless the changed document was there and only the disk
did not take it.
-/
structure LeftAlone (change : Change) (file next : SettingsFile) (reason : StoreError)
    : Prop where
  path : next.path = file.path
  files (place : Place) (content : Bytes)
    : next.tree.entry? place = some (.file content)
      ↔ file.tree.entry? place = some (.file content)
  readable (path : Path) (content : Bytes) (held : file.tree.read path = .ok content)
    : next.tree.read path = .ok content
  untouched
    : next = file
      ∨ ∃ document changed cause,
          file.document = .ok document
          ∧ document.changeAt change.onFields CatalogSettings.sectionKey sectionKeys = .ok changed
          ∧ (file.tree.writeWithParents file.path changed.render).2 = .error cause
          ∧ reason = .unreachable file.path cause

theorem LeftAlone.refl (change : Change) (file : SettingsFile) (reason : StoreError)
    : LeftAlone change file file reason :=
  ⟨rfl, fun _ _ => .rfl, fun _ _ held => held, .inl rfl⟩

/-- A document that cannot be saved leaves its file alone. -/
theorem leftAlone_of_save {change : Change} {file : SettingsFile} {document changed : Json}
    {reason : StoreError} (loads : file.document = .ok document)
    (found : document.changeAt change.onFields CatalogSettings.sectionKey sectionKeys
      = .ok changed)
    (failed : (file.save changed).2 = .error reason)
    : LeftAlone change file (file.save changed).1 reason := by
  obtain ⟨cause, unwritten, same⟩ : ∃ cause,
      (file.tree.writeWithParents file.path changed.render).2 = .error cause
      ∧ reason = .unreachable file.path cause := by
    unfold save at failed
    dsimp only at failed
    split at failed
    case h_1 => cases failed
    case h_2 cause unwritten => exact ⟨cause, unwritten, (Except.error.inj failed).symm⟩
  have spares := FileTree.spares_of_writeWithParents unwritten
  exact ⟨rfl, spares.file_iff, fun _ _ held => spares.read held,
    .inr ⟨document, changed, cause, loads, found, unwritten, same⟩⟩

theorem leftAlone_of_change {change : Change} {file : SettingsFile} {reason : StoreError}
    (failed : (ProviderStore.change change file).2 = .error reason)
    : LeftAlone change file (ProviderStore.change change file).1 reason := by
  rcases change_cases change file with
    ⟨_, -, same⟩ | ⟨_, _, -, -, same⟩ | ⟨document, changed, loads, found, saves⟩
  · rw [same]
    exact .refl change file reason
  · rw [same]
    exact .refl change file reason
  · rw [saves] at failed ⊢
    exact leftAlone_of_save loads found failed

/-- An operation on the provider that fails, be it a change or the taking of an override, leaves
all regular files as they were, and the whole tree unless it was the disk that refused.
-/
theorem leftAlone_of_failure (file : SettingsFile) (reason : StoreError)
    : (∀ change : Change, (ProviderStore.change change file).2 = .error reason →
        LeftAlone change file (ProviderStore.change change file).1 reason)
      ∧ ∀ provider : Provider, (Override.take provider file).2.1 = .error reason →
        LeftAlone (.set provider) file (Override.take provider file).1 reason := by
  refine ⟨fun change failed => leftAlone_of_change failed, fun provider failed => ?_⟩
  unfold Override.take at failed ⊢
  split at failed
  case h_1 => exact .refl _ file reason
  case h_2 previous log read =>
    dsimp only at failed ⊢
    cases outcome : (ProviderStore.change (.set provider) file).2 with
    | ok done =>
        rw [outcome] at failed
        cases failed
    | error cause =>
        rw [outcome] at failed
        obtain rfl := Except.error.inj failed
        exact leftAlone_of_change outcome

/-- A settings file in what is no directory, by a way that leads through a missing one. -/
def misplaced : SettingsFile :=
  ⟨Path.ofText "/desk/new/../gone/settings.json",
    ((FileChange.write (Path.ofText "/desk/gone") []).apply {}).1⟩

/-- The missing directory is made before the disk refuses, and nothing else happens. -/
theorem leftAlone_of_failure_misplaced
    : ∃ reason,
        (ProviderStore.change .clear misplaced).2 = .error reason
        ∧ LeftAlone .clear misplaced (ProviderStore.change .clear misplaced).1 reason
        ∧ (Override.take .karaf misplaced).2.1 = .error reason
        ∧ LeftAlone (.set .karaf) misplaced (Override.take .karaf misplaced).1 reason
        ∧ (ProviderStore.change .clear misplaced).1.tree.isDirectory (Path.ofText "/desk/new")
          = true := by
  have refused : (ProviderStore.change .clear misplaced).2
      = .error (.unreachable misplaced.path .occupied) := rfl
  have notTaken : (Override.take .karaf misplaced).2.1
      = .error (.unreachable misplaced.path .occupied) := rfl
  exact ⟨_, refused, (leftAlone_of_failure misplaced _).1 .clear refused, notTaken,
    (leftAlone_of_failure misplaced _).2 .karaf notTaken, rfl⟩

end RouteDesk.SettingsFile
