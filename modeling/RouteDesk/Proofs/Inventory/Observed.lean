import RouteDesk.Proofs.Inventory.Scans

/-! What an index knows after an event. It takes up the files at and below the paths that are there,
and drops what is below the others; both are told by the names below the root.
-/

namespace RouteDesk

open FileTree (IsName pathLimit)

namespace DiskEvent

/-- An event about paths of names below a root. -/
def IsInside (root : Path) (event : DiskEvent) : Prop :=
  ∀ path ∈ event.paths, ∃ names, names ≠ [] ∧ (∀ name ∈ names, IsName name)
    ∧ path = root.descend names

/-- Whether an event is about what stands at some names below a root, or at the first of them. -/
def Mentions (root : Path) (names : List Bytes) (event : DiskEvent) : Prop :=
  ∃ front, front <+: names ∧ root.descend front ∈ event.paths

/-- Whether an event leaves what is known below one of its paths. -/
def spares (tree : FileTree) (path : Path) : DiskEvent → Bool
  | .created _ => true
  | .removed _ => false
  | .renamed _ => tree.isPresent path

end DiskEvent

namespace Index

/-- Whether a path of these names below a root is known. -/
def Holds (index : Index) (root : Path) (names : List Bytes) : Prop :=
  ∃ path ∈ index.paths, path.components = root.components ++ names.map .name

variable {index : Index} {path known : Path}

-----------------------------------------------------------------------------------------
-- Paths that are taken up
-----------------------------------------------------------------------------------------

theorem knows_iff
    : index.knows path = true ↔ ∃ known ∈ index.paths, path.components = known.components := by
  unfold knows Path.agrees
  simp

theorem subset_insert (index : Index) (path : Path) : index.paths ⊆ (index.insert path).paths := by
  unfold insert
  split
  · exact List.Subset.refl _
  · exact List.subset_append_left _ _

theorem mem_insert (member : known ∈ (index.insert path).paths)
    : known ∈ index.paths ∨ known = path := by
  unfold insert at member
  split at member
  · exact .inl member
  · exact (List.mem_append.mp member).imp_right List.mem_singleton.mp

theorem exists_mem_insert (index : Index) (path : Path)
    : ∃ known ∈ (index.insert path).paths, known.components = path.components := by
  unfold insert
  split
  case isTrue knows =>
    obtain ⟨known, member, same⟩ := knows_iff.mp knows
    exact ⟨known, member, same.symm⟩
  case isFalse => exact ⟨path, List.mem_append_right _ (List.mem_singleton_self _), rfl⟩

theorem subset_extend (index : Index) (paths : List Path)
    : index.paths ⊆ (index.extend paths).paths := by
  induction paths generalizing index with
  | nil => exact List.Subset.refl _
  | cons path rest ih => exact List.Subset.trans (subset_insert index path) (ih _)

theorem mem_extend {paths : List Path} (member : known ∈ (index.extend paths).paths)
    : known ∈ index.paths ∨ known ∈ paths := by
  induction paths generalizing index with
  | nil => exact .inl member
  | cons path rest ih =>
      rcases ih member with before | later
      · rcases mem_insert before with former | rfl
        · exact .inl former
        · exact .inr List.mem_cons_self
      · exact .inr (List.mem_cons_of_mem _ later)

theorem exists_mem_extend (index : Index) {paths : List Path} (member : path ∈ paths)
    : ∃ known ∈ (index.extend paths).paths, known.components = path.components := by
  induction paths generalizing index with
  | nil => cases member
  | cons first rest ih =>
      rcases List.mem_cons.mp member with rfl | later
      · obtain ⟨known, inserted, same⟩ := exists_mem_insert index path
        exact ⟨known, subset_extend _ rest inserted, same⟩
      · exact ih _ later

section Events

variable {tree : FileTree} {root : Path} {top : Place} {names : List Bytes}

theorem Holds.mono {next : Index} (holds : index.Holds root names)
    (subset : index.paths ⊆ next.paths)
    : next.Holds root names := by
  obtain ⟨known, member, same⟩ := holds
  exact ⟨known, subset member, same⟩

theorem subset_takeUp (tree : FileTree) (index : Index) (path : Path)
    : index.paths ⊆ (index.takeUp tree path).1.paths := by
  unfold takeUp
  split
  · exact subset_insert index path
  · split
    · split
      · exact subset_extend index _
      · exact List.Subset.refl _
    · exact List.Subset.refl _

/-- A path that is too long leads nowhere. -/
theorem takeUp_of_long (tree : FileTree) (index : Index) (long : pathLimit < path.bytes.length)
    : index.takeUp tree path = (index, []) := by
  have nowhere : tree.target? path = none :=
    Option.isNone_iff_eq_none.mp (Option.isSome_eq_false_iff.mp (FileTree.isPresent_of_long long))
  simp [takeUp, FileTree.isFile, FileTree.isDirectory, nowhere]

/-- A path that is no text is not searched. -/
theorem isText_of_all {found : List Path} (finds : Inventory.all tree path = .ok found)
    : Bytes.IsText path.bytes := by
  unfold Inventory.all Inventory.literalRoot at finds
  cases decoded : Bytes.toText? path.bytes with
  | some text => exact ⟨text, Bytes.ofText_of_toText? decoded⟩
  | none =>
      rw [decoded] at finds
      cases finds

/-- Only files below the root are taken up. -/
theorem mem_takeUp (rooted : tree.Rooted root top) (given : names ≠ [])
    (proper : ∀ name ∈ names, IsName name)
    (member : known ∈ (index.takeUp tree (root.descend names)).1.paths)
    : known ∈ index.paths ∨ root.IsInside known ∧ tree.isFile known = true := by
  have below := Path.below_descend rooted.absolute proper
  unfold takeUp at member
  split at member
  case isTrue file =>
    refine (mem_insert member).imp_right ?_
    rintro rfl
    exact ⟨⟨names, given, proper, below⟩, file⟩
  case isFalse =>
    split at member
    case isFalse => exact .inl member
    case isTrue directory =>
      split at member
      case h_2 => exact .inl member
      case h_1 found finds =>
        have inner := rooted.descend proper (isText_of_all finds) directory
        obtain ⟨found', finds', scanned⟩ := Inventory.exists_scanned inner
        obtain rfl := Except.ok.inj (finds.symm.trans finds')
        refine (mem_extend member).imp_right fun new => ?_
        obtain ⟨inside, file⟩ := scanned.files known new
        exact ⟨inside.trans below proper, file⟩

/-- Files at and below a path that is taken up are known. -/
theorem holds_takeUp (rooted : tree.Rooted root top) {more : List Bytes} {content : Bytes}
    (held : tree.entry? (top ++ (names ++ more)) = some (.file content))
    (texts : ∀ name ∈ names ++ more, Bytes.IsText name)
    (short : (root.descend (names ++ more)).bytes.length ≤ pathLimit) (index : Index)
    : (index.takeUp tree (root.descend names)).1.Holds root (names ++ more) := by
  have present : tree.entry? (top ++ (names ++ more)) ≠ none := by simp [held]
  obtain ⟨proper, properMore⟩ := List.forall_mem_append.mp (rooted.isName present)
  have below := Path.below_descend rooted.absolute proper
  have text := Path.isText_descend rooted.text (List.forall_mem_append.mp texts).1
  rw [Path.descend_append] at short
  have onTheWay := Nat.le_trans (Path.length_le_descend below.absolute properMore) short
  unfold takeUp
  by_cases last : more = []
  · subst last
    rw [List.append_nil] at held ⊢
    rw [if_pos ((rooted.isFile_iff below).mpr ⟨onTheWay, content, held⟩)]
    obtain ⟨known, member, same⟩ := exists_mem_insert index (root.descend names)
    exact ⟨known, member, same.trans below.components⟩
  · rw [← List.append_assoc] at present held
    have above := rooted.sound.directory_above present last
    have directory := (rooted.isDirectory_iff below).mpr ⟨onTheWay, above⟩
    have notFile : ¬ tree.isFile (root.descend names) = true := by
      rw [rooted.isFile_iff below, above]
      simp
    obtain ⟨found, finds, scanned⟩ :=
      Inventory.exists_scanned (rooted.descend proper text directory)
    rw [if_neg notFile, if_pos directory, finds]
    obtain ⟨path, among, below'⟩ :=
      scanned.all more content held (List.forall_mem_append.mp texts).2 short
    obtain ⟨known, member, same⟩ := exists_mem_extend index among
    exact ⟨known, member, same.trans (below.trans below' last).components⟩

-----------------------------------------------------------------------------------------
-- Paths that are dropped
-----------------------------------------------------------------------------------------

theorem mem_dropBelow
    : known ∈ (index.dropBelow path).paths
      ↔ known ∈ index.paths ∧ known.startsWith path = false := by
  unfold dropBelow
  simp

theorem holds_dropBelow (absolute : root.isAbsolute = true) (holds : index.Holds root names)
    {others : List Bytes} (proper : ∀ name ∈ others, IsName name) (apart : ¬ others <+: names)
    : (index.dropBelow (root.descend others)).Holds root names := by
  obtain ⟨known, member, read⟩ := holds
  refine ⟨known, mem_dropBelow.mpr ⟨member, ?_⟩, read⟩
  rw [← Bool.not_eq_true, (Path.below_descend absolute proper).startsWith_iff read]
  exact apart

-----------------------------------------------------------------------------------------
-- Events
-----------------------------------------------------------------------------------------

/-- The index after one path of an event. -/
def react (tree : FileTree) (event : DiskEvent) (index : Index) (path : Path) : Index :=
  if event.spares tree path then (index.takeUp tree path).1 else index.dropBelow path

/-- An event is observed path by path. -/
theorem observe_eq (tree : FileTree) (index : Index) (event : DiskEvent)
    : (index.observe tree event).1 = event.paths.foldl (react tree event) index := by
  cases event with
  | created paths => exact each_eq _ index paths
  | removed paths => exact each_eq _ index paths
  | renamed paths =>
      refine (each_eq _ index paths).trans (congrArg (fun step => paths.foldl step index) ?_)
      funext index path
      unfold review react
      change _ = if tree.isPresent path then _ else _
      split <;> rfl

/-- What is known after an event is a file, or was known before and is spared. -/
theorem mem_observe (rooted : tree.Rooted root top) {event : DiskEvent}
    (inside : event.IsInside root) (member : known ∈ (index.observe tree event).1.paths)
    : root.IsInside known ∧ tree.isFile known = true
      ∨ known ∈ index.paths
        ∧ ∀ path ∈ event.paths, known.startsWith path = true → event.spares tree path = true := by
  rw [observe_eq] at member
  unfold DiskEvent.IsInside at inside
  generalize event.paths = paths at inside member
  induction paths generalizing index with
  | nil => exact .inr ⟨member, nofun⟩
  | cons path rest ih =>
      obtain ⟨⟨names, given, proper, rfl⟩, later⟩ := List.forall_mem_cons.mp inside
      rcases ih later member with new | ⟨former, spared⟩
      · exact .inl new
      · unfold react at former
        split at former
        case isTrue spares =>
          rcases mem_takeUp rooted given proper former with before | new
          · exact .inr ⟨before, List.forall_mem_cons.mpr ⟨fun _ => spares, spared⟩⟩
          · exact .inl new
        case isFalse =>
          obtain ⟨before, apart⟩ := mem_dropBelow.mp former
          refine .inr ⟨before, List.forall_mem_cons.mpr ⟨fun starts => ?_, spared⟩⟩
          rw [apart] at starts
          cases starts

/-- A file that is known, or that an event is about, is known after the event if that spares all
that it says of the file.
-/
theorem holds_observe (rooted : tree.Rooted root top) {content : Bytes}
    (held : tree.entry? (top ++ names) = some (.file content))
    (texts : ∀ name ∈ names, Bytes.IsText name)
    (short : (root.descend names).bytes.length ≤ pathLimit) {event : DiskEvent}
    (inside : event.IsInside root)
    (spared : ∀ front, front <+: names → root.descend front ∈ event.paths →
      event.spares tree (root.descend front) = true)
    (known : index.Holds root names ∨ event.Mentions root names)
    : (index.observe tree event).1.Holds root names := by
  rw [observe_eq]
  unfold DiskEvent.IsInside at inside
  unfold DiskEvent.Mentions at known
  generalize event.paths = paths at inside spared known
  induction paths generalizing index with
  | nil => exact known.resolve_right (by simp)
  | cons path rest ih =>
      obtain ⟨⟨others, -, proper, rfl⟩, later⟩ := List.forall_mem_cons.mp inside
      refine ih later (fun front before among => spared front before (.tail _ among)) ?_
      by_cases before : others <+: names
      · obtain ⟨more, rfl⟩ := before
        rw [react, if_pos (spared others (List.prefix_append _ _) (.head _))]
        exact .inl (holds_takeUp rooted held texts short index)
      · rcases known with holds | ⟨front, above, among⟩
        · refine .inl ?_
          unfold react
          split
          · exact holds.mono (subset_takeUp tree index _)
          · exact holds_dropBelow rooted.absolute holds proper before
        · refine .inr ⟨front, above, (List.mem_cons.mp among).resolve_left fun same => before ?_⟩
          have proper' : ∀ name ∈ front, IsName name := fun name member =>
            rooted.isName (by simp [held]) name (above.subset member)
          have names_eq := (Path.below_descend rooted.absolute proper').names_eq
            (Path.below_descend rooted.absolute proper) (congrArg Path.components same)
          exact names_eq ▸ above

end Events

end Index

end RouteDesk
