import RouteDesk.Proofs.Catalog.Override

/-! Changes of the provider in a row. The first of them succeeds just when the last one would have
succeeded alone; then all of them do, and what is left is what the last one alone would have left.
-/

namespace RouteDesk

open Json (Fields)

-----------------------------------------------------------------------------------------
-- Changes of one document
-----------------------------------------------------------------------------------------

/-- Whether fields at the end of a way can be changed, and why not, does not depend on how. -/
theorem changeAt_uniform (former latter : Fields → Fields) (last : String) (keys : List String)
    (document : Json)
    : (∃ key, document.changeAt former last keys = .error key
        ∧ document.changeAt latter last keys = .error key)
      ∨ ∃ first second, document.changeAt former last keys = .ok first
        ∧ document.changeAt latter last keys = .ok second := by
  induction keys generalizing document with
  | nil =>
      cases document with
      | object fields => exact .inr ⟨_, _, rfl, rfl⟩
      | _ => exact .inl ⟨last, rfl, rfl⟩
  | cons key rest ih =>
      cases document with
      | object fields =>
          simp only [Json.changeAt]
          rcases ih ((Fields.get? fields key).getD (.object [])) with
            ⟨reason, left, right⟩ | ⟨first, second, left, right⟩
          · exact .inl ⟨reason, by rw [left], by rw [right]⟩
          · exact .inr ⟨_, _, by rw [left], by rw [right]⟩
      | _ => exact .inl ⟨key, rfl, rfl⟩

/-- A document that was amended twice at the same name is the one before it amended once. -/
theorem Amended.trans {keys : List String} {name : String} {former latter : Option Json}
    {before middle after : Json} (first : Amended keys name former before middle)
    (second : Amended keys name latter middle after)
    : Amended keys name latter before after where
  way := second.way
  changed := second.changed
  others path aside apart := (second.others path aside apart).trans (first.others path aside apart)

namespace SettingsFile

/-- What becomes of a change does not depend on which change it is. -/
theorem outcome_change (former latter : Change) (file : SettingsFile)
    : (ProviderStore.change former file).2 = (ProviderStore.change latter file).2 := by
  cases loads : file.document with
  | error reason => rw [change_of_unloaded loads, change_of_unloaded loads]
  | ok document =>
      rcases changeAt_uniform former.onFields latter.onFields CatalogSettings.sectionKey
        sectionKeys document with ⟨key, left, right⟩ | ⟨first, second, left, right⟩
      · rw [change_of_impassable loads left, change_of_impassable loads right]
      · rw [change_of_changeAt loads left, change_of_changeAt loads right]
        unfold save
        dsimp only
        rw [file.tree.outcome_writeWithParents file.path first.render second.render]

/-- Of two changes made one after the other only the second is left, as if the first had never
been made. Witness: the document with both changes is the one with the second alone.
-/
theorem change_change {former : Change} {file : SettingsFile} (sound : file.tree.Sound)
    (free : ∀ document, file.document = .ok document → document.RealFree)
    (done : (ProviderStore.change former file).2 = .ok ()) (latter : Change)
    : ProviderStore.change latter (ProviderStore.change former file).1
      = ProviderStore.change latter file := by
  obtain ⟨before, loads⟩ := loads_of_change done
  have within := (within_of_document loads).of_realFree (free before loads)
  obtain ⟨middle, amended, kept, loaded⟩ :=
    @amended_of_change _ id nofun _ _ _ sound loads within done
  rw [Json.onReals_of_realFree kept.realFree] at loaded
  have again := changed_of_paved loaded (Json.onReals_of_realFree kept.realFree id ▸
    paved_of_amended amended id) latter
  have alone := (outcome_change former latter file).symm.trans done
  obtain ⟨first, found, saves⟩ := save_of_change loads done
  obtain ⟨second, foundTwice, savesTwice⟩ := save_of_change loaded again
  obtain ⟨other, foundAlone, savesAlone⟩ := save_of_change loads alone
  have deep : sectionKeys.length < Json.Reading.depthLimit := by decide
  have same : second = other :=
    (amended.trans (amended_changeAt latter.replaces kept deep foundTwice)).unique
      (amended_changeAt latter.replaces within deep foundAlone)
  have written := written_of_save (saves ▸ done)
  rw [savesTwice, savesAlone, same, saves]
  unfold save
  dsimp only
  rw [FileTree.writeWithParents_twice sound written]

-----------------------------------------------------------------------------------------
-- Changes in a row
-----------------------------------------------------------------------------------------

/-- The file after changes in a row, and what became of each of them. -/
def changeAll : List Change → SettingsFile → SettingsFile × List (Except StoreError Unit)
  | [], file => (file, [])
  | change :: rest, file =>
    let (changed, outcome) := ProviderStore.change change file
    let (left, outcomes) := changeAll rest changed
    (left, outcome :: outcomes)

/-- What changes in a row make of a file, in view of what the last of them alone would do. -/
structure Decides (former : List Change) (last : Change) (file : SettingsFile) : Prop where
  /-- The first of them succeeds just when the last one alone would. -/
  starts : (changeAll (former ++ [last]) file).2.head? = some (.ok ())
    ↔ (ProviderStore.change last file).2 = .ok ()
  /-- Then all of them succeed. -/
  succeed (alone : (ProviderStore.change last file).2 = .ok ())
    : ∀ outcome ∈ (changeAll (former ++ [last]) file).2, outcome = .ok ()
  /-- They leave the file and its surroundings as the last one alone would. -/
  same (alone : (ProviderStore.change last file).2 = .ok ())
    : (changeAll (former ++ [last]) file).1 = (ProviderStore.change last file).1
  /-- So they leave the same bytes in the file. -/
  bytes (alone : (ProviderStore.change last file).2 = .ok ())
    : ∃ content,
        (changeAll (former ++ [last]) file).1.tree.read file.path = .ok content
        ∧ (ProviderStore.change last file).1.tree.read file.path = .ok content
  /-- A change that is made again leaves everything as it is. -/
  again (alone : (ProviderStore.change last file).2 = .ok ())
    : ProviderStore.change last (ProviderStore.change last file).1
      = ((ProviderStore.change last file).1, .ok ())

/-- What a change has written can be read. -/
theorem readable_of_change {change : Change} {file : SettingsFile} (sound : file.tree.Sound)
    (done : (ProviderStore.change change file).2 = .ok ())
    : ∃ content, (ProviderStore.change change file).1.tree.read file.path = .ok content := by
  obtain ⟨before, loads⟩ := loads_of_change done
  obtain ⟨after, -, saves⟩ := save_of_change loads done
  rw [saves] at done ⊢
  exact ⟨_, FileTree.read_of_writeWithParents sound (written_of_save done)⟩

theorem realFree_of_change {change : Change} {file : SettingsFile} (sound : file.tree.Sound)
    (free : ∀ document, file.document = .ok document → document.RealFree)
    (done : (ProviderStore.change change file).2 = .ok ())
    : ∀ document, (ProviderStore.change change file).1.document = .ok document →
        document.RealFree := by
  obtain ⟨before, loads⟩ := loads_of_change done
  have within := (within_of_document loads).of_realFree (free before loads)
  obtain ⟨after, -, kept, loaded⟩ :=
    @amended_of_change _ id nofun _ _ _ sound loads within done
  rw [Json.onReals_of_realFree kept.realFree] at loaded
  intro document loads
  exact Except.ok.inj (loaded.symm.trans loads) ▸ kept.realFree

/-- Changes before the last one change nothing about what it leaves, by induction on them. -/
theorem changeAll_append {former : List Change} {last : Change} {file : SettingsFile}
    (sound : file.tree.Sound)
    (free : ∀ document, file.document = .ok document → document.RealFree)
    (alone : (ProviderStore.change last file).2 = .ok ())
    : (changeAll (former ++ [last]) file).1 = (ProviderStore.change last file).1
      ∧ ∀ outcome ∈ (changeAll (former ++ [last]) file).2, outcome = .ok () := by
  induction former generalizing file with
  | nil => exact ⟨rfl, fun outcome member => (List.mem_singleton.mp member).trans alone⟩
  | cons change rest ih =>
      have done := (outcome_change change last file).trans alone
      have twice := change_change sound free done last
      obtain ⟨same, succeed⟩ := ih (sound_change sound) (realFree_of_change sound free done)
        (twice ▸ alone)
      exact ⟨same.trans (congrArg Prod.fst twice), List.forall_mem_cons.mpr ⟨done, succeed⟩⟩

/-- Of changes in a row the last one decides what is left. -/
theorem decides_changeAll {file : SettingsFile} (sound : file.tree.Sound)
    (free : ∀ document, file.document = .ok document → document.RealFree)
    (former : List Change) (last : Change)
    : Decides former last file where
  starts := by
    cases former with
    | nil => exact Option.some_inj
    | cons change rest =>
        rw [outcome_change last change file]
        exact Option.some_inj
  succeed alone := (changeAll_append sound free alone).2
  same alone := (changeAll_append sound free alone).1
  bytes alone := by
    obtain ⟨content, read⟩ := readable_of_change sound alone
    exact ⟨content, (changeAll_append sound free alone).1 ▸ read, read⟩
  again alone := (change_change sound free alone last).trans (Prod.ext rfl alone)

/-- Two changes after which a third one decides. -/
theorem decides_changeAll_commented
    : commented.tree.Sound
      ∧ (∀ document, commented.document = .ok document → document.RealFree)
      ∧ Decides [.set .quarkus, .clear] (.set .karaf) commented
      ∧ (ProviderStore.change (.set .karaf) commented).2 = .ok () := by
  have sound : commented.tree.Sound := FileTree.durable_sound.apply (.empty []) _
  have loads : commented.document = .ok (.object [("tab_size", .integer 2)]) := rfl
  have free (document : Json) (same : commented.document = .ok document) : document.RealFree := by
    obtain rfl := Except.ok.inj (loads.symm.trans same)
    exact .object fun field member => List.mem_singleton.mp member ▸ .integer 2
  exact ⟨sound, free, decides_changeAll sound free [.set .quarkus, .clear] (.set .karaf), rfl⟩

end SettingsFile

end RouteDesk
