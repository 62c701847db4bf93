import RouteDesk.Proofs.Inventory.Descent

/-! Roots without links below them. A path below such a root leads to what stands at the place of
its names, provided that it is no longer than the system takes.
-/

namespace RouteDesk

-----------------------------------------------------------------------------------------
-- Places that are there
-----------------------------------------------------------------------------------------

namespace FileTree

variable {tree : FileTree}

/-- Whatever is above an entry is a directory, by induction on the names between them. -/
theorem Sound.directory_above (sound : tree.Sound) {place : Place} {more : List Bytes}
    (present : tree.entry? (place ++ more) ≠ none) (given : more ≠ [])
    : tree.entry? place = some .directory := by
  induction more using List.reverseRecOn with
  | nil => exact absurd rfl given
  | append_singleton front last ih =>
      rw [← List.append_assoc] at present
      have above := sound _ _ present
      cases front with
      | nil => rwa [List.append_nil] at above
      | cons => exact ih (by simp [above]) (List.cons_ne_nil _ _)

theorem mem_entries {place : Place} (given : place ≠ []) (present : tree.entry? place ≠ none)
    : place ∈ tree.entries.map Prod.fst := by
  rw [entry?_of_ne given] at present
  obtain ⟨entry, held⟩ := Option.ne_none_iff_exists'.mp present
  obtain ⟨front, back, split, -⟩ := List.lookup_eq_some_iff.mp held
  rw [split]
  simp

theorem entry?_ne_none {place : Place} (member : place ∈ tree.entries.map Prod.fst)
    : tree.entry? place ≠ none := by
  by_cases top : place = []
  · simp [top]
  · rw [entry?_of_ne top]
    intro absent
    obtain ⟨item, among, rfl⟩ := List.mem_map.mp member
    simpa using List.lookup_eq_none_iff.mp absent item among

theorem Named.isName (named : tree.Named) {place : Place} (present : tree.entry? place ≠ none)
    : ∀ name ∈ place, IsName name := by
  by_cases top : place = []
  · simp [top]
  · obtain ⟨item, among, rfl⟩ := List.mem_map.mp (mem_entries top present)
    exact named.entries item among

/-- The names in a directory are those of the entries in it. -/
theorem mem_names {place : Place} {name : Bytes}
    : name ∈ tree.names place ↔ tree.entry? (place ++ [name]) ≠ none := by
  have listed : name ∈ tree.names place ↔ place ++ [name] ∈ tree.entries.map Prod.fst := by
    unfold names
    rw [List.mem_filterMap, List.mem_map]
    refine exists_congr fun item => and_congr_right fun _ => ⟨fun found => ?_, fun same => ?_⟩
    · split at found
      · split at found
        case isTrue same => exact same.trans (by rw [Option.some.inj found])
        case isFalse => cases found
      · cases found
    · rw [same, List.getLast?_concat]
      exact if_pos rfl
  exact listed.trans ⟨entry?_ne_none, mem_entries (by simp)⟩

/-- There are no more names on the way to an entry than there are entries: one of each length. -/
theorem Sound.length_le (sound : tree.Sound) {place : Place} (present : tree.entry? place ≠ none)
    : place.length ≤ tree.entries.length := by
  have way : (List.range place.length).map (fun count => place.take (count + 1))
      ⊆ tree.entries.map Prod.fst := by
    intro front member
    obtain ⟨count, below, rfl⟩ := List.mem_map.mp member
    rw [List.mem_range] at below
    refine mem_entries (by rw [Ne, List.take_eq_nil_iff]; rintro (none' | rfl) <;> simp_all) ?_
    rcases Nat.lt_or_ge (count + 1) place.length with inner | last
    · have split := List.take_append_drop (count + 1) place
      rw [← split] at present
      rw [sound.directory_above present (by simpa using inner)]
      nofun
    · rwa [List.take_of_length_le last]
  have apart : ((List.range place.length).map fun count => place.take (count + 1)).Nodup := by
    refine List.nodup_range.map_on fun first below second below' same => ?_
    have lengths := congrArg List.length same
    rw [List.mem_range] at below below'
    rw [List.length_take, List.length_take] at lengths
    omega
  simpa using (apart.subperm way).length_le

-----------------------------------------------------------------------------------------
-- Walks along names
-----------------------------------------------------------------------------------------

/-- Steps lead to one spot only. -/
theorem Walks.unique {links : Nat} {place : Place} {steps : List Step} {spot other : Spot}
    (first : Walks tree true Path.steps links place steps spot)
    (second : Walks tree true Path.steps links place steps other)
    : spot = other :=
  Except.ok.inj ((walk_eq_ok_iff.mpr first).symm.trans (walk_eq_ok_iff.mpr second))

/-- Two walks in a row, where the second one comes to no link. -/
theorem Walks.append {links : Nat} {place middle : Place} {front back : List Step} {spot : Spot}
    (walks : Walks tree true Path.steps links place front ⟨middle, some .directory⟩)
    (onward : ∀ links, Walks tree true Path.steps links middle back spot)
    : Walks tree true Path.steps links place (front ++ back) spot := by
  generalize ended : (⟨middle, some .directory⟩ : Spot) = finish at walks
  induction walks with
  | arrives =>
      obtain ⟨rfl, -⟩ := Spot.mk.inj ended
      exact onward _
  | stays directory _ ih => exact .stays directory (ih ended)
  | climbs directory _ ih => exact .climbs directory (ih ended)
  | misses => cases ended
  | halts _ _ _ stop => cases stop
  | jumps directory short link _ given _ ih =>
      refine .jumps directory short link (by simp) given ?_
      have together := ih ended
      rw [ite_steps, List.append_assoc] at together
      rwa [ite_steps]
  | enters directory short found notLink _ ih =>
      exact .enters directory short found notLink (ih ended)

/-- Names lead to what stands at their place, by induction on them. -/
theorem walks_into (sound : tree.Sound) {place : Place} {names : List Bytes} {entry : Entry}
    (held : tree.entry? (place ++ names) = some entry)
    (fits : ∀ name ∈ names, name.length ≤ nameLimit)
    (unlinked : ∀ front target, tree.entry? (place ++ front) ≠ some (.link target))
    (links : Nat)
    : Walks tree true Path.steps links place (names.map .into) ⟨place ++ names, some entry⟩ := by
  induction names generalizing place with
  | nil =>
      rw [List.append_nil] at held ⊢
      exact held ▸ .arrives
  | cons name rest ih =>
      obtain ⟨short, later⟩ := List.forall_mem_cons.mp fits
      have next : place ++ name :: rest = (place ++ [name]) ++ rest := by simp
      have present : tree.entry? (place ++ name :: rest) ≠ none := by simp [held]
      have directory := sound.directory_above present (List.cons_ne_nil name rest)
      have found : ∃ entry, tree.entry? (place ++ [name]) = some entry := by
        cases rest with
        | nil => exact ⟨entry, held⟩
        | cons => exact ⟨_, sound.directory_above (next ▸ present) (List.cons_ne_nil _ _)⟩
      obtain ⟨entry', there⟩ := found
      refine .enters directory (Nat.not_lt.mpr short) there
        (fun target same => unlinked [name] target (there.trans (congrArg some same))) ?_
      rw [next] at held ⊢
      exact ih held later fun front target => by
        rw [List.append_assoc]
        exact unlinked _ target

/-- Names lead nowhere else, by induction on them. -/
theorem Walks.of_into {links : Nat} {place : Place} {names : List Bytes} {spot : Spot}
    (walks : Walks tree true Path.steps links place (names.map .into) spot)
    (unlinked : ∀ front target, tree.entry? (place ++ front) ≠ some (.link target))
    : spot = ⟨place ++ names, tree.entry? (place ++ names)⟩ := by
  induction names generalizing place with
  | nil =>
      cases walks with
      | arrives => simp
  | cons name rest ih =>
      have next : place ++ name :: rest = (place ++ [name]) ++ rest := by simp
      rw [List.map_cons] at walks
      generalize behind : rest.map Step.into = steps at walks
      cases walks with
      | misses directory short absent =>
          obtain rfl := List.map_eq_nil_iff.mp behind
          rw [absent]
      | halts directory short link stop => cases stop
      | jumps directory short link => exact absurd link (unlinked [name] _)
      | enters directory short found notLink onward =>
          rw [next]
          exact ih (behind ▸ onward) fun front target => by
            rw [List.append_assoc]
            exact unlinked _ target

-----------------------------------------------------------------------------------------
-- Roots
-----------------------------------------------------------------------------------------

/-- A root that leads to a directory without links below it, in a tree as it comes about. -/
structure Rooted (tree : FileTree) (root : Path) (top : Place) : Prop where
  sound : tree.Sound
  named : tree.Named
  once : (tree.entries.map Prod.fst).Nodup
  absolute : root.isAbsolute = true
  text : Bytes.IsText root.bytes
  leads : tree.locate true root = .ok ⟨top, some .directory⟩
  /-- The names below it are such as the system takes. -/
  fits (names : List Bytes) (present : tree.entry? (top ++ names) ≠ none)
    : ∀ name ∈ names, name.length ≤ nameLimit ∧ 0 ∉ name
  unlinked (names : List Bytes) (target : Path)
    : tree.entry? (top ++ names) ≠ some (.link target)

namespace Rooted

variable {root path : Path} {top : Place} {names : List Bytes}

theorem top_directory (rooted : tree.Rooted root top) : tree.entry? top = some .directory :=
  (lands_locateBy rooted.sound steps_ne_nil rooted.leads).entry.symm

theorem isName (rooted : tree.Rooted root top) (present : tree.entry? (top ++ names) ≠ none)
    : ∀ name ∈ names, IsName name :=
  fun name member => rooted.named.isName present name (List.mem_append_right _ member)

theorem moves_steps (below : Path.Below root names path)
    : Step.moves path.steps = Step.moves (root.steps ++ names.map .into) := by
  have into : (names.map Component.name).filterMap Component.step? = names.map .into := by
    rw [List.filterMap_map]
    exact congrFun List.filterMap_eq_map names
  have all : Step.moves (names.map .into) = names.map .into :=
    List.filter_eq_self.mpr (by simp)
  rw [Path.moves_steps, below.components, moves_append, Path.moves_steps, List.filterMap_append,
    into, all]

theorem getLast?_steps (root : Path) (given : names ≠ [])
    : (root.steps ++ names.map Step.into).getLast? ≠ some .stay := by
  rw [List.getLast?_append_of_ne_nil _ (by simpa using given), List.getLast?_map]
  cases names.getLast? <;> simp

/-- Along a path below a root a walk comes to what stands at the place of its names. -/
theorem walks (rooted : tree.Rooted root top) (below : Path.Below root names path)
    {entry : Entry} (held : tree.entry? (top ++ names) = some entry)
    : Walks tree true Path.steps linkLimit [] path.steps ⟨top ++ names, some entry⟩ := by
  have present : tree.entry? (top ++ names) ≠ none := by simp [held]
  have rootWalks := walks_of_locate rooted.leads
  rw [rooted.absolute, if_pos rfl] at rootWalks
  have along := rootWalks.append fun links =>
    walks_into rooted.sound held (fun name member => (rooted.fits names present name member).1)
      rooted.unlinked links
  refine along.of_moves (moves_steps below).symm ?_
  by_cases empty : names = []
  · subst empty
    rw [List.append_nil, rooted.top_directory] at held
    exact .inl held.symm
  · exact .inr ⟨getLast?_steps root empty, below.ends empty⟩

/-- A walk along such a path ends nowhere else. -/
theorem walks_unique (rooted : tree.Rooted root top) (below : Path.Below root names path)
    {place : Place} {entry : Entry}
    (reached : Walks tree true Path.steps linkLimit [] path.steps ⟨place, some entry⟩)
    : place = top ++ names ∧ tree.entry? (top ++ names) = some entry := by
  cases held : tree.entry? (top ++ names) with
  | some found =>
      obtain ⟨rfl, same⟩ := Spot.mk.inj (reached.unique (rooted.walks below held))
      exact ⟨rfl, same.symm⟩
  | none =>
      have given : names ≠ [] := by
        rintro rfl
        rw [List.append_nil, rooted.top_directory] at held
        cases held
      have along := reached.of_moves (moves_steps below)
        (.inr ⟨below.ends given, getLast?_steps root given⟩)
      obtain ⟨fewer, middle, first, second⟩ := along.split rfl (by simpa using given)
      have rootWalks := walks_of_locate rooted.leads
      rw [rooted.absolute, if_pos rfl] at rootWalks
      obtain ⟨rfl, -⟩ := Spot.mk.inj (first.unique rootWalks)
      have ends := congrArg Spot.entry (second.of_into rooted.unlinked)
      rw [held] at ends
      cases ends

theorem clean (rooted : tree.Rooted root top) (below : Path.Below root names path)
    (proper : ∀ name ∈ names, 0 ∉ name)
    : path.bytes.contains 0 = false := by
  obtain ⟨rootClean, -, -, -⟩ := locateBy_eq_ok_iff.mp rooted.leads
  rw [List.contains_eq_mem, decide_eq_false_iff_not] at rootClean ⊢
  rw [Path.mem_bytes_iff rooted.absolute (by decide) (by decide)] at rootClean
  rw [Path.mem_bytes_iff below.absolute (by decide) (by decide), below.components]
  rintro ⟨name, member, inside⟩
  rcases List.mem_append.mp member with front | back
  · exact rootClean ⟨name, front, inside⟩
  · obtain ⟨other, among, same⟩ := List.mem_map.mp back
    exact proper other among (Component.name.inj same ▸ inside)

/-- A path below a root leads to the place of its names and to nothing else, if it is not too
long.
-/
theorem locate_iff (rooted : tree.Rooted root top) (below : Path.Below root names path)
    {place : Place} {entry : Entry}
    : tree.locate true path = .ok ⟨place, some entry⟩
      ↔ path.bytes.length ≤ pathLimit ∧ place = top ++ names
        ∧ tree.entry? (top ++ names) = some entry := by
  constructor
  · intro reached
    obtain ⟨-, -, short, -⟩ := locateBy_eq_ok_iff.mp reached
    have walks := walks_of_locate reached
    rw [below.absolute, if_pos rfl] at walks
    exact ⟨short, rooted.walks_unique below walks⟩
  · rintro ⟨short, rfl, held⟩
    have proper (name : Bytes) (member : name ∈ names) : 0 ∉ name :=
      (rooted.fits names (by simp [held]) name member).2
    refine locateBy_eq_ok_iff.mpr ⟨rooted.clean below proper, ?_, short, ?_⟩
    · obtain ⟨tail, bytes⟩ := (Path.isAbsolute_iff _).mp below.absolute
      rw [bytes]
      nofun
    · rw [below.absolute, if_pos rfl]
      exact walk_eq_ok_iff.mpr (rooted.walks below held)

theorem target?_eq (rooted : tree.Rooted root top) (below : Path.Below root names path)
    : tree.target? path
      = if path.bytes.length ≤ pathLimit then tree.entry? (top ++ names) else none := by
  have target {entry : Entry}
      : tree.target? path = some entry
        ↔ ∃ place, tree.locate true path = .ok ⟨place, some entry⟩ := by
    unfold target?
    cases tree.locate true path with
    | error => simp
    | ok spot =>
        obtain ⟨place, found⟩ := spot
        simp [Spot.mk.injEq]
  refine Option.ext fun entry => ?_
  rw [target]
  simp only [rooted.locate_iff below, exists_and_left, exists_eq_left]
  split <;> simp [*]

theorem isFile_iff (rooted : tree.Rooted root top) (below : Path.Below root names path)
    : tree.isFile path = true
      ↔ path.bytes.length ≤ pathLimit
        ∧ ∃ content, tree.entry? (top ++ names) = some (.file content) := by
  unfold isFile
  rw [rooted.target?_eq below]
  by_cases short : path.bytes.length ≤ pathLimit
  · rw [if_pos short]
    cases tree.entry? (top ++ names) with
    | none => simp
    | some entry => cases entry <;> simp [short]
  · simp [short]

theorem isDirectory_iff (rooted : tree.Rooted root top) (below : Path.Below root names path)
    : tree.isDirectory path = true
      ↔ path.bytes.length ≤ pathLimit ∧ tree.entry? (top ++ names) = some .directory := by
  unfold isDirectory
  rw [rooted.target?_eq below, beq_iff_eq]
  split <;> simp [*]

theorem isPresent_iff (rooted : tree.Rooted root top) (below : Path.Below root names path)
    : tree.isPresent path = true
      ↔ path.bytes.length ≤ pathLimit ∧ tree.entry? (top ++ names) ≠ none := by
  unfold isPresent
  rw [rooted.target?_eq below]
  split <;> simp [*, Option.isSome_iff_ne_none]

/-- A directory below a root is a root as well, however it is written, if its path is a text and not
too long.
-/
theorem within (rooted : tree.Rooted root top) (below : Path.Below root names path)
    (text : Bytes.IsText path.bytes) (short : path.bytes.length ≤ pathLimit)
    (directory : tree.entry? (top ++ names) = some .directory)
    : tree.Rooted path (top ++ names) := by
  refine ⟨rooted.sound, rooted.named, rooted.once, below.absolute, text,
    (rooted.locate_iff below).mpr ⟨short, rfl, directory⟩, fun more present name member => ?_,
    fun more target => ?_⟩
  · rw [List.append_assoc] at present
    exact rooted.fits _ present name (List.mem_append_right _ member)
  · rw [List.append_assoc]
    exact rooted.unlinked _ target

/-- So is a directory that names lead to. -/
theorem descend (rooted : tree.Rooted root top) (proper : ∀ name ∈ names, IsName name)
    (text : Bytes.IsText (root.descend names).bytes)
    (directory : tree.isDirectory (root.descend names) = true)
    : tree.Rooted (root.descend names) (top ++ names) := by
  have below := Path.below_descend rooted.absolute proper
  obtain ⟨short, held⟩ := (rooted.isDirectory_iff below).mp directory
  exact rooted.within below text short held

/-- What is added in a directory below a root may be anything but a link. -/
theorem put (rooted : tree.Rooted root top) {front : List Bytes}
    {last : Bytes} (directory : tree.entry? (top ++ front) = some .directory)
    (absent : tree.entry? (top ++ front ++ [last]) = none) (proper : IsName last)
    (short : last.length ≤ nameLimit ∧ 0 ∉ last) {entry : Entry}
    (notLink : ∀ target, entry ≠ .link target)
    (leads : (tree.put (top ++ front ++ [last]) entry).locate true root
      = .ok ⟨top, some .directory⟩)
    : (tree.put (top ++ front ++ [last]) entry).Rooted root top := by
  have inner : top ++ front ++ [last] ≠ [] := by simp
  have above := @Named.isName _ rooted.named (top ++ front) (by simp [directory])
  have sound := rooted.sound.put ⟨_, last, rfl, directory⟩ (by rw [absent]; nofun) entry
  have others {names : List Bytes} (different : top ++ names ≠ top ++ front ++ [last])
      : entry? (tree.put (top ++ front ++ [last]) entry) (top ++ names)
        = tree.entry? (top ++ names) :=
    entry?_put_of_ne different tree entry
  refine ⟨sound, ⟨fun item member => ?_, rooted.named.home⟩, ?_, rooted.absolute, rooted.text,
    leads, fun names present name member => ?_, fun names target => ?_⟩
  · rcases List.mem_cons.mp member with rfl | kept
    · exact List.forall_mem_append.mpr ⟨above, List.forall_mem_singleton.mpr proper⟩
    · exact rooted.named.entries item (List.mem_of_mem_filter kept)
  · refine List.nodup_cons.mpr ⟨fun member => ?_, ?_⟩
    · obtain ⟨item, kept, same⟩ := List.mem_map.mp member
      simp [same] at kept
    · exact rooted.once.sublist (List.filter_sublist.map Prod.fst)
  · by_cases same : top ++ names = top ++ front ++ [last]
    · rw [List.append_assoc] at same
      obtain rfl := List.append_cancel_left same
      rcases List.mem_append.mp member with old | new
      · exact rooted.fits front (by simp [directory]) name old
      · exact List.mem_singleton.mp new ▸ short
    · exact rooted.fits names (others same ▸ present) name member
  · by_cases same : top ++ names = top ++ front ++ [last]
    · rw [same, entry?_put_self inner]
      exact fun linked => notLink target (Option.some.inj linked)
    · exact others same ▸ rooted.unlinked names target

end Rooted

-----------------------------------------------------------------------------------------
-- Trees of entries
-----------------------------------------------------------------------------------------

/-- The tree that changes make of an empty one. -/
def grown (changes : List FileChange) : FileTree :=
  changes.foldl (fun tree change => (change.apply tree).1) {}

/-- What every change keeps holds of a grown tree, if it holds of the empty one. -/
theorem Durable.grown {holds : FileTree → Prop} (durable : Durable holds) (first : holds {})
    (changes : List FileChange)
    : holds (FileTree.grown changes) := by
  unfold FileTree.grown
  generalize ({} : FileTree) = tree at first
  induction changes generalizing tree with
  | nil => exact first
  | cons change rest ih => exact ih _ (durable.apply first change)

/-- A directory of a grown tree is a root if no entry is a link, or one too many. -/
theorem rooted_grown (changes : List FileChange) {root : Path} {top : Place}
    (absolute : root.isAbsolute = true) (text : Bytes.IsText root.bytes)
    (leads : (grown changes).locate true root = .ok ⟨top, some .directory⟩)
    (once : ((grown changes).entries.map Prod.fst).Nodup)
    (fits : ∀ item ∈ (grown changes).entries,
      ∀ name ∈ item.1, name.length ≤ nameLimit ∧ 0 ∉ name)
    (unlinked : ∀ item ∈ (grown changes).entries, ¬ item.2 matches .link _)
    : (grown changes).Rooted root top := by
  refine ⟨durable_sound.grown (.empty []) changes, durable_named.grown ⟨nofun, nofun⟩ changes, once,
    absolute, text, leads, fun names present name member => ?_, fun names target linked => ?_⟩
  · have inner : top ++ names ≠ [] := by
      rw [Ne, List.append_eq_nil_iff]
      rintro ⟨-, rfl⟩
      cases member
    obtain ⟨item, among, place⟩ := List.mem_map.mp (mem_entries inner present)
    exact fits item among name (place ▸ List.mem_append_right _ member)
  · by_cases inner : top ++ names = []
    · rw [inner] at linked
      cases linked
    · rw [entry?_of_ne inner] at linked
      obtain ⟨front, back, split, -⟩ := List.lookup_eq_some_iff.mp linked
      exact unlinked (top ++ names, .link target) (by rw [split]; simp) rfl

theorem rooted_top (changes : List FileChange)
    (once : ((grown changes).entries.map Prod.fst).Nodup)
    (fits : ∀ item ∈ (grown changes).entries,
      ∀ name ∈ item.1, name.length ≤ nameLimit ∧ 0 ∉ name)
    (unlinked : ∀ item ∈ (grown changes).entries, ¬ item.2 matches .link _)
    : (grown changes).Rooted (Path.ofText "/") [] :=
  rooted_grown changes rfl ⟨"/", rfl⟩ rfl once fits unlinked

end FileTree

end RouteDesk
