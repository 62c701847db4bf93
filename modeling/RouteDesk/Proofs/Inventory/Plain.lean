import RouteDesk.Inventory.Live
import RouteDesk.Proofs.Inventory.Found

/-! How the paths of a workspace are written. A plain path goes from the top along names, with one
slash before each of them, so that it is the only plain way to write what it is read as. Searches
under a plain root find plain paths, and a watched index keeps to them.
-/

namespace RouteDesk

open RouteDesk.Path (slash)
open FileTree (IsName)
open Wildcard (tokenOf)

-----------------------------------------------------------------------------------------
-- Plain paths
-----------------------------------------------------------------------------------------

theorem FileTree.IsName.whole {name : Bytes} (proper : IsName name) : slash ∉ name :=
  (Path.not_mem_piece proper).1

theorem FileTree.IsName.ne_nil {name : Bytes} (proper : IsName name) : name ≠ [] := by
  cases proper with
  | name _ given => exact given

theorem FileTree.IsName.component?_eq {name : Bytes} (proper : IsName name)
    : Path.component? name = some (.name name) :=
  Path.component?_piece proper

/-- A path that goes from the top along names. -/
inductive Path.IsPlain : Path → Prop
  | top : IsPlain (.ofText "/")
  | join {directory : Path} {name : Bytes} (plain : IsPlain directory) (proper : IsName name)
    : IsPlain (directory.join ⟨name⟩)

namespace Path.IsPlain

variable {path other : Path}

theorem isAbsolute (plain : path.IsPlain) : path.isAbsolute = true := by
  induction plain with
  | top => rfl
  | join _ _ ih => exact isAbsolute_join ih _

theorem components_join {directory : Path} {name : Bytes} (plain : directory.IsPlain)
    (proper : IsName name)
    : (directory.join ⟨name⟩).components = directory.components ++ [.name name] := by
  rw [Path.components_join plain.isAbsolute proper.whole, proper.component?_eq]
  rfl

/-- There is only one plain way to write a path. -/
theorem eq_of_components (plain : path.IsPlain) (plain' : other.IsPlain)
    (same : path.components = other.components)
    : path = other := by
  have top {directory : Path} {name : Bytes} (plain : directory.IsPlain) (proper : IsName name)
      : (Path.ofText "/").components ≠ (directory.join ⟨name⟩).components := by
    rw [plain.components_join proper]
    intro same
    have last := congrArg List.getLast? same
    rw [List.getLast?_concat] at last
    cases last
  induction plain generalizing other with
  | top =>
      cases plain' with
      | top => rfl
      | join plain proper => exact absurd same (top plain proper)
  | join plain proper ih =>
      cases plain' with
      | top => exact absurd same.symm (top plain proper)
      | join plain' proper' =>
          rw [plain.components_join proper, plain'.components_join proper'] at same
          obtain ⟨front, last⟩ := List.append_inj' same rfl
          rw [ih plain' front, Component.name.inj (List.singleton_inj.mp last)]

/-- A plain path is cut into names at its slashes, unless it is the top. -/
theorem eq_top_or_pieces (plain : path.IsPlain)
    : path = .ofText "/" ∨ path.bytes.getLast? ≠ some slash
        ∧ ∃ tail, path.bytes = slash :: tail ∧ ∀ piece ∈ tail.splitOn slash, IsName piece := by
  induction plain with
  | top => exact .inl rfl
  | @join directory name plain proper ih =>
      have relative := isAbsolute_of_whole proper.whole
      have last (front : Bytes) : (front ++ name).getLast? ≠ some slash := by
        rw [List.getLast?_append_of_ne_nil _ proper.ne_nil]
        exact fun last => proper.whole (List.mem_of_getLast? last)
      refine .inr ?_
      rcases ih with rfl | ⟨ends, tail, bytes, pieces⟩
      · have joined : ((Path.ofText "/").join ⟨name⟩).bytes = slash :: name := by
          rw [Path.join, relative, if_neg (by decide), if_pos (by decide)]
          rfl
        rw [joined]
        refine ⟨last [slash], name, rfl, ?_⟩
        rw [List.splitOn_eq_singleton proper.whole]
        exact List.forall_mem_singleton.mpr proper
      · have joined : (directory.join ⟨name⟩).bytes = directory.bytes ++ [slash] ++ name := by
          have given : ¬ (directory.bytes = [] ∨ directory.bytes.getLast? = some slash) :=
            not_or.mpr ⟨by rw [bytes]; nofun, ends⟩
          rw [Path.join, relative, if_neg (by decide), if_neg given, List.append_assoc]
          rfl
        rw [joined]
        refine ⟨last _, tail ++ slash :: name, by simp [bytes], ?_⟩
        rw [List.splitOn_append_cons_self, List.splitOn_eq_singleton proper.whole]
        exact List.forall_mem_append.mpr ⟨pieces, List.forall_mem_singleton.mpr proper⟩

end Path.IsPlain

theorem Text.intercalate_concat {α : Type} (mark : α) {front : List (List α)} (given : front ≠ [])
    (last : List α)
    : [mark].intercalate (front ++ [last]) = [mark].intercalate front ++ mark :: last := by
  induction front with
  | nil => exact absurd rfl given
  | cons first rest ih =>
      cases rest with
      | nil => simp [List.intercalate_cons_cons]
      | cons second more =>
          rw [List.cons_append, List.cons_append, List.intercalate_cons_cons, ← List.cons_append,
            ih (List.cons_ne_nil _ _), List.intercalate_cons_cons]
          simp

theorem Path.ofComponents_root (names : List Bytes)
    : Path.ofComponents (.root :: names.map .name) = ⟨slash :: [slash].intercalate names⟩ := by
  rw [ofComponents, ofComponents.written, List.map_map]
  exact congrArg (fun pieces => (⟨slash :: [slash].intercalate pieces⟩ : Path))
    (List.map_id names)

/-- Names are written as a plain path, by induction on them from the last one on. -/
theorem Path.isPlain_ofComponents {place : Place} (names : ∀ name ∈ place, IsName name)
    : (Path.ofComponents (.root :: place.map .name)).IsPlain := by
  induction place using List.reverseRecOn with
  | nil => exact .top
  | append_singleton front last ih =>
      have proper : IsName last := names last (by simp)
      have plain := ih fun name member => names name (List.mem_append_left _ member)
      have relative := isAbsolute_of_whole proper.whole
      have joined : Path.ofComponents (.root :: (front ++ [last]).map .name)
          = (Path.ofComponents (.root :: front.map .name)).join ⟨last⟩ := by
        rw [Path.join, relative, if_neg (by decide)]
        cases front with
        | nil =>
            rw [ofComponents_root, ofComponents_root, if_pos (.inr rfl)]
            simp
        | cons first rest =>
            have regular : Regular (.root :: (first :: rest).map .name) :=
              .rooted (List.forall_mem_map.mpr fun name member =>
                names name (List.mem_append_left _ member))
            have ends := plain.eq_top_or_pieces.resolve_left fun top => by
              have read := components_ofComponents regular
              rw [top] at read
              cases read
            rw [ofComponents_root] at ends
            rw [ofComponents_root, ofComponents_root,
              if_neg (not_or.mpr ⟨List.cons_ne_nil _ _, ends.1⟩),
              Text.intercalate_concat slash (List.cons_ne_nil _ _)]
            rfl
      rw [joined]
      exact plain.join proper

theorem FileTree.isPlain_of_canonical {tree : FileTree} (named : tree.Named) {given root : Path}
    (canonical : tree.canonical given = .ok root)
    : root.IsPlain := by
  unfold FileTree.canonical at canonical
  split at canonical
  case h_1 => cases canonical
  case h_2 => cases canonical
  case h_3 place entry reached =>
    obtain rfl := Except.ok.inj canonical
    exact Path.isPlain_ofComponents (named.locateBy (.inl rfl) reached)

-----------------------------------------------------------------------------------------
-- Searches
-----------------------------------------------------------------------------------------

namespace Wildcard

variable {tree : FileTree}

theorem isPlain_of_children (named : tree.Named) {path child : Path} (plain : path.IsPlain)
    (member : child ∈ children tree path)
    : child.IsPlain := by
  unfold children at member
  split at member
  case h_2 => cases member
  case h_1 =>
    obtain ⟨name, among, rfl⟩ := List.mem_map.mp member
    rw [Inventory.within_eq_join plain.isAbsolute]
    exact plain.join (named.names among)

theorem isPlain_of_descendants (named : tree.Named) {levels : Nat} {path found : Path}
    (plain : path.IsPlain) (member : found ∈ descendants tree levels path)
    : found.IsPlain := by
  induction levels generalizing path with
  | zero => cases member
  | succ levels ih =>
      obtain ⟨child, among, inside⟩ := List.mem_flatMap.mp member
      have next := isPlain_of_children named plain among
      rcases List.mem_cons.mp inside with rfl | deeper
      · exact next
      · exact ih next deeper

/-- Patterns whose literal components are names. -/
def Nameable (patterns : List Pattern) : Prop :=
  ∀ tokens text, .name tokens ∈ patterns → literal? tokens = some text →
    IsName (Bytes.ofText (String.ofList text))

/-- Such patterns lead from plain paths to plain paths, by induction on them. -/
theorem isPlain_of_below (named : tree.Named) {patterns : List Pattern}
    (nameable : Nameable patterns) {path found : Path} (plain : path.IsPlain)
    : (found ∈ below tree patterns path → found.IsPlain)
      ∧ (found ∈ atOrBelow tree patterns path → found.IsPlain) := by
  induction patterns generalizing path with
  | nil =>
      refine ⟨fun member => ?_, fun member => ?_⟩
      · rw [below] at member
        exact List.mem_singleton.mp member ▸ plain
      · rw [atOrBelow] at member
        split at member
        · exact List.mem_singleton.mp member ▸ plain
        · cases member
  | cons pattern rest ih =>
      have later : Nameable rest := fun tokens text member =>
        nameable tokens text (List.mem_cons_of_mem _ member)
      cases pattern with
      | anyDepth =>
          refine ⟨fun member => ?_, fun member => ?_⟩
          · rw [below] at member
            obtain ⟨child, among, inside⟩ := List.mem_flatMap.mp member
            exact (ih later (isPlain_of_descendants named plain among)).2 inside
          · rw [atOrBelow] at member
            exact (ih later plain).2 member
      | name tokens =>
          refine ⟨fun member => ?_, fun member => ?_⟩
          · rw [below] at member
            split at member
            case h_1 text literal =>
              split at member
              · rw [Inventory.within_eq_join plain.isAbsolute] at member
                have proper := nameable tokens text List.mem_cons_self literal
                exact (ih later (plain.join proper)).1 member
              · cases member
            case h_2 =>
              obtain ⟨child, among, inside⟩ := List.mem_flatMap.mp member
              split at inside
              · exact (ih later (isPlain_of_children named plain among)).1 inside
              · cases inside
          · rw [atOrBelow] at member
            split at member
            · exact (ih later plain).1 member
            · cases member

/-- What is found below a plain root is plain. -/
theorem isPlain_of_root (named : tree.Named) {root : Path} (plain : root.IsPlain)
    {rest : List Char} (bytes : root.bytes = slash :: Bytes.ofText (String.ofList rest))
    {later : List Pattern} (nameable : Nameable later) {found : Path}
    (member : found ∈ below tree
      ((rest.splitOn '/').map (fun text => .name (text.map tokenOf)) ++ later) (.ofText "/"))
    : found.IsPlain := by
  rcases plain.eq_top_or_pieces with rfl | ⟨-, tail, bytes', pieces⟩
  · have empty : rest = [] := by
      have nothing : Bytes.ofText (String.ofList rest) = [] := (List.cons.inj bytes).2.symm
      rw [Bytes.ofText_ofList] at nothing
      cases rest with
      | nil => rfl
      | cons char more =>
          exact absurd (List.append_eq_nil_iff.mp nothing).1 String.utf8EncodeChar_ne_nil
    subst empty
    -- The only piece is empty, and leads from the top to the top.
    change found ∈ below tree (.name [] :: later) (.ofText "/") at member
    have stays : within (.ofText "/") (Bytes.ofText (String.ofList [])) = .ofText "/" := by decide
    rw [below, show literal? [] = some [] from rfl] at member
    dsimp only at member
    rw [stays] at member
    split at member
    · exact (isPlain_of_below named nameable .top).1 member
    · cases member
  · have text : tail = Bytes.ofText (String.ofList rest) :=
      (List.cons.inj (bytes'.symm.trans bytes)).2
    refine (isPlain_of_below named ?_ .top).1 member
    intro tokens name among literal
    rcases List.mem_append.mp among with front | back
    · obtain ⟨piece, inside, same⟩ := List.mem_map.mp front
      obtain rfl := Pattern.name.inj same
      rw [literal?_escape literal]
      refine pieces _ ?_
      rw [text, Bytes.splitOn_ofText]
      exact List.mem_map_of_mem inside
    · exact nameable tokens name back literal

end Wildcard

namespace Inventory

variable {tree : FileTree} {root : Path}

/-- A search for a name under a plain root finds no other path than that of the name in the root.
-/
theorem eq_child_of_find (named : tree.Named) (plain : root.IsPlain) {name : String}
    (proper : IsName (Bytes.ofText name)) {found : List Path}
    (finds : find tree root name = .ok found) {path : Path} (member : path ∈ found)
    : path = root.child name := by
  obtain ⟨-, -, read⟩ := find_spec named plain.isAbsolute proper finds member
  obtain ⟨given, whole⟩ := toList_of_isName proper
  obtain ⟨-, rest, bytes, among⟩ := mem_below_of_find plain.isAbsolute given whole finds member
  have nameable : Wildcard.Nameable [.name (name.toList.map tokenOf)] := by
    intro tokens text inside literal
    obtain rfl := Wildcard.Pattern.name.inj (List.mem_singleton.mp inside)
    rw [Wildcard.literal?_escape literal, String.ofList_toList]
    exact proper
  rw [piecesTo, List.map_append] at among
  have found := Wildcard.isPlain_of_root named plain bytes nameable among
  exact found.eq_of_components (plain.join proper)
    (read.trans (FileTree.components_child root proper).symm)

/-- What is found anywhere below a plain root is plain. -/
theorem isPlain_of_all (named : tree.Named) (plain : root.IsPlain) {found : List Path}
    (finds : all tree root = .ok found) {path : Path} (member : path ∈ found)
    : path.IsPlain := by
  unfold all at finds
  split at finds
  case h_2 => cases finds
  case h_1 pattern literal =>
    obtain ⟨rest, rfl, bytes⟩ := literalRoot_eq_ok plain.isAbsolute literal
    obtain ⟨fitting, searched, files⟩ := mem_filesFitting finds
    rw [search_all] at searched
    have nameable : Wildcard.Nameable [.anyDepth, .name [.anyText]] := by
      intro tokens text inside literal
      obtain rfl : tokens = [.anyText] := by simpa using inside
      cases literal
    obtain rfl := Except.ok.inj searched
    exact Wildcard.isPlain_of_root named plain bytes nameable (files path member).1

end Inventory

-----------------------------------------------------------------------------------------
-- Watchers
-----------------------------------------------------------------------------------------

variable {tree : FileTree}

theorem FileTree.isPlain_of_directoriesFrom (named : tree.Named) {levels : Nat}
    {way : List Place} {path : Path} (plain : path.IsPlain) {item : Place × Path}
    (member : item ∈ tree.directoriesFrom levels way path)
    : item.2.IsPlain := by
  induction levels generalizing way path with
  | zero => cases member
  | succ levels ih =>
      rw [directoriesFrom] at member
      split at member
      case h_2 => cases member
      case h_1 place reached =>
        rcases List.mem_cons.mp member with rfl | below
        · exact plain
        · obtain ⟨name, among, inside⟩ := List.mem_flatMap.mp below
          have next := plain.join (named.names among)
          dsimp only at inside
          split at inside
          · split at inside
            · cases inside
            · exact ih next inside
          · exact ih next inside

/-- A watcher that knows directories by plain paths only. -/
structure Watcher.IsPlain (watcher : Watcher) : Prop where
  watched (item : Place × Path) (member : item ∈ watcher.watched) : item.2.IsPlain
  root (item : Place × Path) (top : watcher.root = some item) : item.2.IsPlain

/-- The paths that an event is about. -/
def DiskEvent.paths : DiskEvent → List Path
  | .created paths | .removed paths | .renamed paths => paths

namespace Watcher.IsPlain

variable {watcher : Watcher}

theorem name? (plain : watcher.IsPlain) {place : Place} (names : ∀ name ∈ place, IsName name)
    {path : Path} (known : watcher.name? place = some path)
    : path.IsPlain := by
  unfold Watcher.name? at known
  split at known
  case h_1 top found =>
    obtain rfl := Option.some.inj known
    exact plain.root top (Option.filter_eq_some_iff.mp found).1
  case h_2 =>
    split at known
    case h_1 name directory last found =>
      obtain rfl := Option.some.inj known
      obtain ⟨front, back, split, -⟩ := List.lookup_eq_some_iff.mp found
      have member : (place.dropLast, directory) ∈ watcher.watched := by
        rw [split]
        exact List.mem_append_right _ List.mem_cons_self
      exact (plain.watched _ member).join (names name (List.mem_of_getLast? last))
    case h_2 => cases known

theorem extend (plain : watcher.IsPlain) (named : tree.Named) {path : Path}
    (start : path.IsPlain)
    : (watcher.extend tree path).IsPlain where
  watched item member := by
    rcases List.mem_append.mp member with new | old
    · exact FileTree.isPlain_of_directoriesFrom named start (List.mem_reverse.mp new)
    · exact plain.watched item old
  root := plain.root

theorem ofRoot (named : tree.Named) {root : Path} (plain : root.IsPlain)
    : (Watcher.ofRoot tree root).IsPlain := by
  unfold Watcher.ofRoot
  split
  · refine extend ⟨by simp, fun item top => ?_⟩ named plain
    exact Option.some.inj top ▸ plain
  · exact ⟨by simp, by simp⟩

theorem of_kept (plain : watcher.IsPlain) {kept : Watcher}
    (watched : ∀ item ∈ kept.watched, ∃ former ∈ watcher.watched, former.2 = item.2)
    (root : ∀ item, kept.root = some item →
      ∃ former, watcher.root = some former ∧ former.2 = item.2)
    : kept.IsPlain where
  watched item member := by
    obtain ⟨former, among, same⟩ := watched item member
    exact same ▸ plain.watched former among
  root item top := by
    obtain ⟨former, among, same⟩ := root item top
    exact same ▸ plain.root former among

theorem release (plain : watcher.IsPlain) (path : Path) : (watcher.release path).IsPlain :=
  plain.of_kept (fun item member => ⟨item, List.mem_of_mem_filter member, rfl⟩)
    fun item top => ⟨item, top, rfl⟩

theorem without (plain : watcher.IsPlain) (place : Place) : (watcher.without place).IsPlain :=
  plain.of_kept (fun item member => ⟨item, List.mem_of_mem_filter member, rfl⟩)
    fun item top => ⟨item, (Option.filter_eq_some_iff.mp top).1, rfl⟩

theorem moved (plain : watcher.IsPlain) (source target : Place)
    : (watcher.moved source target).IsPlain := by
  refine (plain.without target).of_kept (fun item member => ?_) fun item top => ?_
  · obtain ⟨former, among, rfl⟩ := List.mem_map.mp member
    exact ⟨former, among, by split <;> rfl⟩
  · obtain ⟨former, among, rfl⟩ := Option.map_eq_some_iff.mp top
    exact ⟨former, among, by split <;> rfl⟩

theorem entered (plain : watcher.IsPlain) (named : tree.Named) {place : Place}
    (names : ∀ name ∈ place, IsName name)
    : (watcher.entered tree place).IsPlain := by
  unfold Watcher.entered
  split
  case h_1 path _ known => exact plain.extend named (plain.name? names known)
  case h_2 => exact plain

theorem entered_all (plain : watcher.IsPlain) (named : tree.Named) {places : List Place}
    (names : ∀ place ∈ places, ∀ name ∈ place, IsName name)
    : (places.foldl (Watcher.entered tree) watcher).IsPlain := by
  induction places generalizing watcher with
  | nil => exact plain
  | cons place rest ih =>
      obtain ⟨first, later⟩ := List.forall_mem_cons.mp names
      exact ih (plain.entered named first) later

theorem names_all (plain : watcher.IsPlain) {places : List Place}
    (names : ∀ place ∈ places, ∀ name ∈ place, IsName name)
    : ∀ path ∈ places.filterMap watcher.name?, path.IsPlain := by
  intro path member
  obtain ⟨place, among, known⟩ := List.mem_filterMap.mp member
  exact plain.name? (names place among) known

theorem onRenamed (plain : watcher.IsPlain) {after : FileTree} (named : after.Named)
    {source target : Place} (names : ∀ name ∈ source, IsName name)
    (names' : ∀ name ∈ target, IsName name)
    : (∀ event ∈ (watcher.onRenamed after source target).1, ∀ path ∈ event.paths, path.IsPlain)
      ∧ (watcher.onRenamed after source target).2.IsPlain := by
  unfold Watcher.onRenamed
  dsimp only
  refine ⟨fun event member path among => ?_, ?_⟩
  · have old {path : Path} (known : watcher.name? source = some path) : path.IsPlain :=
      plain.name? names known
    have new {path : Path} (known : watcher.name? target = some path) : path.IsPlain :=
      plain.name? names' known
    split at member
    · cases member
    all_goals
      obtain rfl := List.mem_singleton.mp member
      simp only [DiskEvent.paths, List.mem_cons, List.not_mem_nil, or_false] at among
    · exact among ▸ new ‹_›
    · exact among ▸ old ‹_›
    · rcases among with rfl | rfl
      · exact old ‹_›
      · exact new ‹_›
  · refine IsPlain.entered (IsPlain.moved ?_ _ _) named names'
    split
    · split
      · exact plain
      · exact plain.release _
    · exact plain

theorem onRemoved (plain : watcher.IsPlain) (named : tree.Named) (place : Place)
    : (∀ event ∈ (watcher.onRemoved tree place).1, ∀ path ∈ event.paths, path.IsPlain)
      ∧ (watcher.onRemoved tree place).2.IsPlain := by
  unfold Watcher.onRemoved
  dsimp only
  refine ⟨fun event member path among => ?_, IsPlain.without ?_ _⟩
  · obtain rfl := List.mem_singleton.mp member
    refine plain.names_all (fun other inside => ?_) path among
    obtain ⟨item, entry, rfl⟩ := List.mem_map.mp (List.mem_of_mem_filter inside)
    exact named.entries item entry
  · split
    · exact plain.release _
    · exact plain

theorem onMade (plain : watcher.IsPlain) {after : FileTree} (named : after.Named)
    {places : List Place} (names : ∀ place ∈ places, ∀ name ∈ place, IsName name)
    : (∀ event ∈ (watcher.onMade after places).1, ∀ path ∈ event.paths, path.IsPlain)
      ∧ (watcher.onMade after places).2.IsPlain := by
  refine ⟨fun event member path among => ?_, plain.entered_all named names⟩
  obtain rfl := List.mem_singleton.mp member
  exact plain.names_all names path among

/-- Whatever changes, only plain paths are reported, and directories are known by plain paths. -/
theorem notice (plain : watcher.IsPlain) (named : tree.Named) (change : FileChange)
    : (∀ event ∈ (watcher.notice tree change).1, ∀ path ∈ event.paths, path.IsPlain)
      ∧ (watcher.notice tree change).2.IsPlain := by
  have after : (change.apply tree).1.Named := FileTree.durable_named.apply named change
  have still : (∀ event ∈ ([] : List DiskEvent), ∀ path ∈ event.paths, path.IsPlain)
      ∧ watcher.IsPlain := ⟨nofun, plain⟩
  have names {path : Path} {place : Place} (reached : tree.placeOf? path = some place)
      : ∀ name ∈ place, IsName name := by
    unfold FileTree.placeOf? at reached
    split at reached
    case h_1 spot found =>
      obtain rfl := Option.some.inj reached
      exact named.locateBy (.inl rfl) found
    case h_2 => cases reached
  unfold Watcher.notice
  generalize result : change.apply tree = applied at after ⊢
  obtain ⟨next, outcome⟩ := applied
  dsimp only at after ⊢
  split
  · split
    case h_1 old new from' to' =>
      split
      · exact still
      · exact plain.onRenamed after (names from') (names to')
    case h_2 => exact still
  · split
    case h_1 place reached => exact plain.onRemoved named place
    case h_2 => exact still
  · exact still
  · exact still
  · refine plain.onMade after fun place member => ?_
    obtain ⟨item, entry, rfl⟩ := List.mem_map.mp (List.mem_of_mem_filter member)
    exact after.entries item entry

end Watcher.IsPlain

-----------------------------------------------------------------------------------------
-- Indexes
-----------------------------------------------------------------------------------------

theorem Index.each_eq (step : Index → Path → Index × Log) (index : Index) (paths : List Path)
    : (Index.each step index paths).1
      = paths.foldl (fun index path => (step index path).1) index := by
  unfold Index.each
  generalize ([] : Log) = log
  induction paths generalizing index log with
  | nil => rfl
  | cons path rest ih => exact ih _ _

/-- An index of plain paths only. -/
def Index.IsPlain (index : Index) : Prop :=
  ∀ path ∈ index.paths, path.IsPlain

namespace Index.IsPlain

variable {index : Index}

theorem insert (plain : index.IsPlain) {path : Path} (new : path.IsPlain)
    : (index.insert path).IsPlain := by
  unfold Index.insert
  split
  · exact plain
  · exact List.forall_mem_append.mpr ⟨plain, List.forall_mem_singleton.mpr new⟩

theorem extend (plain : index.IsPlain) {paths : List Path} (new : ∀ path ∈ paths, path.IsPlain)
    : (index.extend paths).IsPlain := by
  induction paths generalizing index with
  | nil => exact plain
  | cons path rest ih =>
      obtain ⟨first, later⟩ := List.forall_mem_cons.mp new
      exact ih (plain.insert first) later

theorem takeUp (plain : index.IsPlain) (named : tree.Named) {path : Path} (new : path.IsPlain)
    : (index.takeUp tree path).1.IsPlain := by
  unfold Index.takeUp
  split
  · exact plain.insert new
  · split
    · split
      case h_1 files finds =>
        exact plain.extend fun _ => Inventory.isPlain_of_all named new finds
      case h_2 => exact plain
    · exact plain

theorem dropBelow (plain : index.IsPlain) (path : Path) : (index.dropBelow path).IsPlain :=
  fun other member => plain other (List.mem_of_mem_filter member)

theorem review (plain : index.IsPlain) (named : tree.Named) {path : Path} (new : path.IsPlain)
    : (index.review tree path).1.IsPlain := by
  unfold Index.review
  split
  · exact plain.takeUp named new
  · exact plain.dropBelow path

theorem each (plain : index.IsPlain) {step : Index → Path → Index × Log} {paths : List Path}
    (steps : ∀ path ∈ paths, ∀ index, index.IsPlain → (step index path).1.IsPlain)
    : (Index.each step index paths).1.IsPlain := by
  rw [Index.each_eq]
  induction paths generalizing index with
  | nil => exact plain
  | cons path rest ih =>
      obtain ⟨first, later⟩ := List.forall_mem_cons.mp steps
      exact ih (first index plain) later

/-- An index takes plain paths over from an event about plain paths. -/
theorem observe (plain : index.IsPlain) (named : tree.Named) {event : DiskEvent}
    (paths : ∀ path ∈ event.paths, path.IsPlain)
    : (index.observe tree event).1.IsPlain := by
  cases event with
  | created => exact plain.each fun path member _ still => still.takeUp named (paths path member)
  | removed => exact plain.each fun path _ _ still => still.dropBelow path
  | renamed => exact plain.each fun path member _ still => still.review named (paths path member)

end Index.IsPlain

-----------------------------------------------------------------------------------------
-- Workspaces
-----------------------------------------------------------------------------------------

theorem LiveWorkspace.observeAll_eq (tree : FileTree) (workspace : LiveWorkspace)
    (events : List DiskEvent)
    : (workspace.observeAll tree events).1
      = { workspace with
          index := events.foldl (fun index event => (index.observe tree event).1)
            workspace.index } := by
  unfold LiveWorkspace.observeAll
  generalize ([] : Log) = log
  induction events generalizing workspace log with
  | nil => rfl
  | cons event rest ih => exact ih _ _

/-- A watched workspace of a plain root that knows plain paths only. -/
structure LiveWorkspace.IsPlain (workspace : LiveWorkspace) (root : Path) : Prop where
  root : workspace.root = root
  index : workspace.index.IsPlain
  watcher : workspace.watcher.IsPlain

theorem LiveWorkspace.IsPlain.observeAll {workspace : LiveWorkspace} {root : Path}
    (plain : workspace.IsPlain root) (named : tree.Named) {events : List DiskEvent}
    (reported : ∀ event ∈ events, ∀ path ∈ event.paths, path.IsPlain)
    : (workspace.observeAll tree events).1.IsPlain root := by
  rw [LiveWorkspace.observeAll_eq]
  refine ⟨plain.root, ?_, plain.watcher⟩
  have known := plain.index
  dsimp only
  generalize workspace.index = index at known ⊢
  induction events generalizing index with
  | nil => exact known
  | cons event rest ih =>
      obtain ⟨first, later⟩ := List.forall_mem_cons.mp reported
      exact ih later _ (known.observe named first)

theorem LiveWorkspace.IsPlain.follow {workspace : LiveWorkspace} {root : Path}
    (plain : workspace.IsPlain root) (named : tree.Named) (change : FileChange)
    : (workspace.follow tree change).1.IsPlain root := by
  have after : (change.apply tree).1.Named := FileTree.durable_named.apply named change
  obtain ⟨reported, watcher⟩ := plain.watcher.notice named change
  have begun : { workspace with
      watcher := (workspace.watcher.notice tree change).2 }.IsPlain root :=
    ⟨plain.root, plain.index, watcher⟩
  exact begun.observeAll after reported

/-- A workspace of a root that knows plain paths only. -/
def ProjectFiles.IsPlain (files : ProjectFiles) (root : Path) : Prop :=
  match files with
  | .live workspace => workspace.IsPlain root
  | .onDisk directory => directory = root

namespace ProjectFiles.IsPlain

variable {files : ProjectFiles} {root : Path}

theorem opened (named : tree.Named) (plain : root.IsPlain)
    : (ProjectFiles.opened tree root).1.IsPlain root := by
  unfold ProjectFiles.opened
  split
  case h_1 workspace log opens =>
    unfold LiveWorkspace.open? at opens
    split at opens
    case h_1 => cases opens
    case h_2 => cases opens
    case h_3 =>
      split at opens
      case h_1 => cases opens
      case h_2 found finds =>
        obtain ⟨rfl, rfl⟩ := Prod.mk.inj (Except.ok.inj opens)
        refine ⟨rfl, ?_, .ofRoot named plain⟩
        exact Index.IsPlain.extend (by simp [Index.IsPlain]) fun _ =>
          Inventory.isPlain_of_all named plain finds
  case h_2 => rfl

theorem follow (plain : files.IsPlain root) (named : tree.Named) (change : FileChange)
    : (files.follow tree change).1.IsPlain root := by
  cases files with
  | live workspace => exact LiveWorkspace.IsPlain.follow plain named change
  | onDisk directory => exact plain

/-- A workspace answers a search with nothing but the path of the name in the root. -/
theorem eq_child_of_find (files' : files.IsPlain root) (named : tree.Named)
    (plain : root.IsPlain) {name : String} (proper : IsName (Bytes.ofText name))
    {found : List Path} (finds : files.find tree name = .ok found) {path : Path}
    (member : path ∈ found)
    : path = root.child name := by
  cases files with
  | live workspace =>
      obtain rfl := Except.ok.inj finds
      obtain ⟨known, read⟩ := List.mem_filter.mp member
      rw [files'.root] at read
      refine (files'.index path known).eq_of_components (plain.join proper) ?_
      exact (eq_of_beq read).trans (FileTree.components_child root proper).symm
  | onDisk directory =>
      obtain rfl : directory = root := files'
      exact Inventory.eq_child_of_find named plain proper finds member

end ProjectFiles.IsPlain

end RouteDesk
