import RouteDesk.Proofs.FileTree.Walks

/-! Trees whose names are such that a path can have them: not empty, without a slash, and neither
of the dots. Walks only ever come to places with such names, so every change keeps them. Nor does
any change list a place twice.
-/

namespace RouteDesk.FileTree

/-- A name that is read as one where it stands between slashes. -/
def IsName (bytes : Bytes) : Prop :=
  (Component.name bytes).Inner

/-- Whatever stands in the tree can be named in a path. -/
structure Named (tree : FileTree) : Prop where
  entries (item : Place × Entry) (member : item ∈ tree.entries) : ∀ name ∈ item.1, IsName name
  home : ∀ name ∈ tree.home, IsName name

theorem Named.names {tree : FileTree} (named : tree.Named) {place : Place} {name : Bytes}
    (member : name ∈ tree.names place)
    : IsName name := by
  obtain ⟨item, among, found⟩ := List.mem_filterMap.mp member
  split at found
  case h_1 last ends =>
    split at found
    · obtain rfl := Option.some.inj found
      exact named.entries item among _ (List.mem_of_getLast? ends)
    · cases found
  case h_2 => cases found

-----------------------------------------------------------------------------------------
-- The names that walks come to
-----------------------------------------------------------------------------------------

theorem isName_of_mem_steps {path : Path} {name : Bytes} (member : .into name ∈ path.steps)
    : IsName name := by
  rw [Path.steps_eq_map] at member
  obtain ⟨bytes, among, step⟩ := List.mem_map.mp member
  unfold Step.ofPiece at step
  split at step
  · cases step
  case isFalse plain =>
    split at step
    · cases step
    case isFalse notUp =>
      obtain rfl := Step.into.inj step
      rw [not_or] at plain
      exact .name (Text.not_mem_of_mem_splitOn among) plain.1 ⟨plain.2, notUp⟩

theorem IsReading.isName {reading : Path → List Step} (kind : IsReading reading) {path : Path}
    {name : Bytes} (member : .into name ∈ reading path)
    : IsName name := by
  rcases kind with rfl | rfl
  · exact isName_of_mem_steps member
  · unfold Path.stepsToFile at member
    dsimp only at member
    split at member
    · split at member
      · exact isName_of_mem_steps member
      · rcases List.mem_append.mp member with front | last
        · exact isName_of_mem_steps (List.mem_of_mem_dropLast front)
        · cases List.mem_singleton.mp last
    · exact isName_of_mem_steps member

/-- A walk along names from a place of names ends at one, by induction on the walk. -/
theorem Walks.isName {tree : FileTree} {follow : Bool} {reading : Path → List Step}
    (kind : IsReading reading) {links : Nat} {place : Place} {steps : List Step} {spot : Spot}
    (walks : Walks tree follow reading links place steps spot)
    (start : ∀ name ∈ place, IsName name) (along : ∀ name, .into name ∈ steps → IsName name)
    : ∀ name ∈ spot.place, IsName name := by
  have further {place : Place} {name : Bytes} (start : ∀ name ∈ place, IsName name)
      (next : IsName name) : ∀ other ∈ place ++ [name], IsName other :=
    List.forall_mem_append.mpr ⟨start, List.forall_mem_singleton.mpr next⟩
  induction walks with
  | arrives => exact start
  | stays directory onward ih => exact ih start fun name member => along name (.tail _ member)
  | climbs directory onward ih =>
      exact ih (fun name member => start name (List.mem_of_mem_dropLast member))
        fun name member => along name (.tail _ member)
  | misses directory short absent => exact further start (along _ (.head _))
  | halts directory short link stop => exact further start (along _ (.head _))
  | @jumps links place rest spot name target directory short link goes given onward ih =>
      refine ih ?_ fun name member => ?_
      · split
        · nofun
        · exact start
      · split at member
        · exact kind.isName member
        · rcases List.mem_append.mp member with first | second
          · exact isName_of_mem_steps first
          · exact along name (.tail _ second)
  | enters directory short found notLink onward ih =>
      exact ih (further start (along _ (.head _))) fun name member => along name (.tail _ member)

theorem Named.locateBy {tree : FileTree} (named : tree.Named) {follow : Bool}
    {reading : Path → List Step} (kind : IsReading reading) {path : Path} {spot : Spot}
    (reached : tree.locateBy follow reading path = .ok spot)
    : ∀ name ∈ spot.place, IsName name := by
  refine (walks_of_locate reached).isName kind ?_ fun _ => kind.isName
  split
  · nofun
  · exact named.home

-----------------------------------------------------------------------------------------
-- Changes
-----------------------------------------------------------------------------------------

/-- Every change keeps to names. -/
theorem durable_named : Durable Named where
  put named kind reached replaced entry := by
    refine ⟨fun item member => ?_, named.home⟩
    rcases List.mem_cons.mp member with rfl | kept
    · exact named.locateBy kind reached
    · exact named.entries item (List.mem_of_mem_filter kept)
  cut named place :=
    ⟨fun item member => named.entries item (List.mem_of_mem_filter member), named.home⟩
  graft {tree source target origin goal} named from' to' apart lower := by
    refine ⟨fun item member => ?_, named.home⟩
    rw [entries_graft] at member
    rcases List.mem_append.mp member with arrived | kept
    · obtain ⟨former, among, goes⟩ := List.mem_filterMap.mp arrived
      unfold moved at goes
      split at goes
      · obtain rfl := Option.some.inj goes
        exact List.forall_mem_append.mpr ⟨named.locateBy (.inl rfl) to',
          fun name inside => named.entries former among name (List.mem_of_mem_drop inside)⟩
      · cases goes
    · exact named.entries item (List.mem_of_mem_filter (List.mem_of_mem_filter kept))

-----------------------------------------------------------------------------------------
-- Places that are listed once
-----------------------------------------------------------------------------------------

/-- No place is listed twice. -/
def Distinct (tree : FileTree) : Prop :=
  (tree.entries.map Prod.fst).Nodup

theorem nodup_filter {entries : List (Place × Entry)} (once : (entries.map Prod.fst).Nodup)
    (kept : Place × Entry → Bool)
    : ((entries.filter kept).map Prod.fst).Nodup :=
  once.sublist (List.filter_sublist.map Prod.fst)

/-- What is moved comes to different places, by induction on the entries. -/
theorem nodup_moved {source target : Place} {entries : List (Place × Entry)}
    (once : (entries.map Prod.fst).Nodup)
    : ((entries.filterMap (moved source target)).map Prod.fst).Nodup := by
  induction entries with
  | nil => exact List.nodup_nil
  | cons item rest ih =>
      obtain ⟨key, entry⟩ := item
      obtain ⟨fresh, once'⟩ := List.nodup_cons.mp once
      by_cases under : source <+: key
      · obtain ⟨back, rfl⟩ := under
        rw [List.filterMap_cons, moved_append]
        refine List.nodup_cons.mpr ⟨fun again => fresh ?_, ih once'⟩
        obtain ⟨arrived, among, same⟩ := List.mem_map.mp again
        obtain ⟨⟨other, entry'⟩, listed, goes⟩ := List.mem_filterMap.mp among
        by_cases under' : source <+: other
        · obtain ⟨back', rfl⟩ := under'
          rw [moved_append] at goes
          obtain rfl := Option.some.inj goes
          rw [← List.append_cancel_left same]
          exact List.mem_map.mpr ⟨_, listed, rfl⟩
        · rw [moved_of_apart under'] at goes
          cases goes
      · rw [List.filterMap_cons, moved_of_apart under]
        exact ih once'

/-- Every change lists places once. -/
theorem durable_distinct : Durable Distinct where
  put once kind reached replaced entry := by
    refine List.nodup_cons.mpr ⟨fun again => ?_, nodup_filter once _⟩
    obtain ⟨item, kept, same⟩ := List.mem_map.mp again
    simp [same] at kept
  cut once place := nodup_filter once _
  graft {tree source target origin goal} once from' to' apart lower := by
    unfold Distinct
    rw [entries_graft, List.map_append]
    refine List.nodup_append.mpr ⟨nodup_moved once, nodup_filter (nodup_filter once _) _, ?_⟩
    rintro place arrived _ stays rfl
    -- whatever was at the goal or below it is gone
    obtain ⟨item, kept, rfl⟩ := List.mem_map.mp stays
    obtain ⟨other, among, same⟩ := List.mem_map.mp arrived
    obtain ⟨former, -, goes⟩ := List.mem_filterMap.mp among
    have below : goal.place <+: item.1 := by
      unfold moved at goes
      split at goes
      · obtain rfl := Option.some.inj goes
        exact same ▸ List.prefix_append _ _
      · cases goes
    have notBelow := (List.mem_filter.mp kept).2
    simp [List.isPrefixOf_iff_prefix.mpr below] at notBelow

end RouteDesk.FileTree
