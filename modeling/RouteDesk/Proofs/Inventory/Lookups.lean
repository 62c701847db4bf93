import RouteDesk.Proofs.Inventory.Scans

/-! What a search for a name finds directly under a root without links: the file of that name, once,
and nothing for any other name without a slash.
-/

namespace RouteDesk

open RouteDesk.Path (slash)
open FileTree (IsName pathLimit)
open Wildcard (tokenOf children below fitsPath bytesOf)

-----------------------------------------------------------------------------------------
-- Texts that lead to one path
-----------------------------------------------------------------------------------------

/-- If only one item of a list without duplicates yields anything, no more is yielded. -/
theorem length_flatMap_le {α β : Type} {items : List α} (once : items.Nodup)
    {yields : α → List β} (chosen : α)
    (only : ∀ item ∈ items, item ≠ chosen → yields item = [])
    : (items.flatMap yields).length ≤ (yields chosen).length := by
  induction items with
  | nil => exact Nat.zero_le _
  | cons item rest ih =>
      obtain ⟨fresh, once'⟩ := List.nodup_cons.mp once
      obtain ⟨first, later⟩ := List.forall_mem_cons.mp only
      rw [List.flatMap_cons]
      by_cases same : item = chosen
      · subst same
        have nothing : rest.flatMap yields = [] := List.flatMap_eq_nil_iff.mpr fun other among =>
          later other among fun same => fresh (same ▸ among)
        rw [nothing, List.append_nil]
      · rw [first same, List.nil_append]
        exact ih once' later

/-- No name is listed twice if no place is. -/
theorem FileTree.nodup_names {tree : FileTree} (once : (tree.entries.map Prod.fst).Nodup)
    (place : Place)
    : (tree.names place).Nodup := by
  have sublist : ((tree.names place).map fun name => place ++ [name]).Sublist
      (tree.entries.map Prod.fst) := by
    unfold FileTree.names
    induction tree.entries with
    | nil => exact .slnil
    | cons item rest ih =>
        rw [List.filterMap_cons]
        split
        case h_1 => exact ih.cons _
        case h_2 name read =>
          split at read
          case h_2 => cases read
          case h_1 =>
            split at read
            case isFalse => cases read
            case isTrue same =>
              obtain rfl := Option.some.inj read
              rw [List.map_cons, List.map_cons, same]
              exact ih.cons_cons _
  exact (once.sublist sublist).of_map _

namespace Wildcard

variable {tree : FileTree}

/-- A path fits an escaped text only by the name that it ends with. -/
theorem eq_of_fitsPath {path : Path} {front : List Component} {name : Bytes}
    (read : path.components = front ++ [.name name]) {text : List Char}
    (fitting : fitsPath (text.map tokenOf) path = true)
    : name = bytesOf text := by
  rw [fitsPath, Path.fileName?_of_components read, Option.bind_some] at fitting
  split at fitting
  case h_2 => cases fitting
  case h_1 written decoded =>
    rw [fits_escape] at fitting
    rw [bytesOf, ← fitting, String.ofList_toList]
    exact (Bytes.ofText_of_toText? decoded).symm

/-- Escaped texts lead to no more than one path, by induction on them. -/
theorem length_below_le (named : tree.Named) (once : (tree.entries.map Prod.fst).Nodup)
    (texts : List (List Char)) {start : Path} (absolute : start.isAbsolute = true)
    : (below tree (texts.map fun text => .name (text.map tokenOf)) start).length ≤ 1 := by
  induction texts generalizing start with
  | nil => simp [below]
  | cons text rest ih =>
      have onward (name : Bytes) : (within start name).isAbsolute = true := by
        rw [Inventory.within_eq_join absolute]
        exact Path.isAbsolute_join absolute _
      rw [List.map_cons, below]
      split
      case h_1 =>
        split
        case isTrue => exact ih (onward _)
        case isFalse => exact Nat.zero_le _
      case h_2 =>
        unfold children
        split
        case h_2 => exact Nat.zero_le _
        case h_1 place _ =>
          rw [List.flatMap_map]
          refine Nat.le_trans (length_flatMap_le (FileTree.nodup_names once place) (bytesOf text)
            fun name among different => if_neg fun fitting => ?_) ?_
          · have proper := named.names among
            have read : (start.join ⟨name⟩).components = start.components ++ [.name name] := by
              rw [Path.components_join absolute proper.whole, proper.component?_eq]
              rfl
            rw [Inventory.within_eq_join absolute] at fitting
            exact different (eq_of_fitsPath read fitting)
          · split
            · exact ih (onward _)
            · exact Nat.zero_le _

end Wildcard

-----------------------------------------------------------------------------------------
-- Searches for one name
-----------------------------------------------------------------------------------------

namespace FileTree.Rooted

variable {tree : FileTree} {root path : Path} {top : Place} {names : List Bytes}

/-- A path that is read as names below a root ends with the last of them if it leads to a file. -/
theorem below_of_isFile (absolute : path.isAbsolute = true)
    (read : path.components = root.components ++ names.map .name) (file : tree.isFile path = true)
    : Path.Below root names path := by
  obtain ⟨place, content, reached⟩ := spot_of_isFile file
  exact ⟨absolute, read, fun _ => (walks_of_locate reached).last_ne_stay nofun⟩

/-- A path that ends by going up leads to no file. -/
theorem not_isFile_up (rooted : tree.Rooted root top)
    (read : path.components = root.components ++ [.up])
    : tree.isFile path = false := by
  by_contra file
  obtain ⟨place, content, reached⟩ := spot_of_isFile (Bool.not_eq_false _ ▸ file)
  have walks := walks_of_locate reached
  have moves : Step.moves path.steps = Step.moves (root.steps ++ [.up]) := by
    rw [Path.moves_steps, read, List.filterMap_append, ← Path.moves_steps, moves_append]
    rfl
  have along := walks.of_moves moves (.inr ⟨walks.last_ne_stay nofun, by simp⟩)
  obtain ⟨fewer, middle, -, ending⟩ := along.split rfl (List.cons_ne_nil _ _)
  have higher {middle : Place} (directory : tree.entry? middle = some .directory)
      : tree.entry? middle.dropLast = some .directory := by
    rcases List.eq_nil_or_concat middle with rfl | ⟨front, last, rfl⟩
    · exact directory
    · rw [List.concat_eq_append] at directory ⊢
      rw [List.dropLast_concat]
      exact rooted.sound front last (by simp [directory])
  cases ending with
  | climbs directory onward =>
      generalize above : middle.dropLast = goal at onward
      generalize ended : (⟨place, some (.file content)⟩ : Spot) = spot at onward
      cases onward with
      | arrives =>
          have held := congrArg Spot.entry ended
          rw [← above, higher directory] at held
          cases held

end FileTree.Rooted

namespace Inventory

variable {tree : FileTree} {root : Path} {top : Place} {name : String}

/-- The file of a name is found once. -/
theorem find_of_file (rooted : tree.Rooted root top) {content : Bytes}
    (held : tree.entry? (top ++ [Bytes.ofText name]) = some (.file content))
    (short : (root.child name).bytes.length ≤ pathLimit)
    : ∃ path, find tree root name = .ok [path]
        ∧ path.components = root.components ++ [.name (Bytes.ofText name)] := by
  have proper := List.forall_mem_singleton.mp
    (@FileTree.Rooted.isName _ _ _ [Bytes.ofText name] rooted (by simp [held]))
  obtain ⟨given, whole⟩ := toList_of_isName proper
  obtain ⟨rest, same, bytes⟩ := exists_rest rooted.absolute rooted.text
  -- The file is found under a spelling of the root that is no longer than the root.
  obtain ⟨start, spelled, tighter⟩ := exists_mem_piecesOf rooted bytes
  have spells := below_of_mem_piecesOf rooted bytes spelled
  have goal := spells.join proper
  have short' := Nat.le_trans (tighter.join spells.absolute rooted.absolute proper).short short
  obtain ⟨-, -, rootShort, -⟩ := FileTree.locateBy_eq_ok_iff.mp rooted.leads
  have leads : tree.locate true start = .ok ⟨top, some .directory⟩ :=
    (rooted.locate_iff spells).mpr ⟨Nat.le_trans tighter.short rootShort,
      (List.append_nil top).symm, (List.append_nil top).symm ▸ rooted.top_directory⟩
  have bytes_eq : bytesOf name.toList = Bytes.ofText name := by rw [bytesOf, String.ofList_toList]
  have found : start.join ⟨Bytes.ofText name⟩
      ∈ below tree [.name (name.toList.map tokenOf)] start := by
    rw [← bytes_eq] at held goal short' proper ⊢
    exact Wildcard.join_mem_below spells.absolute leads proper.whole
      ((rooted.isPresent_iff goal).mpr ⟨short', by simp [held]⟩) fun _ => by simp [held]
  have among : start.join ⟨Bytes.ofText name⟩
      ∈ (below tree ((piecesTo rest name).map fun text => .name (text.map tokenOf))
        (Path.ofText "/")).filter tree.isFile := by
    refine List.mem_filter.mpr ⟨?_, (rooted.isFile_iff goal).mpr ⟨short', content, held⟩⟩
    rw [piecesTo, List.map_append]
    exact below_piecesOf tree rest _ ▸ List.mem_flatMap.mpr ⟨start, spelled, found⟩
  have alone := Nat.le_trans (List.length_filter_le tree.isFile _)
    (@Wildcard.length_below_le tree rooted.named rooted.once (piecesTo rest name)
      (Path.ofText "/") rfl)
  obtain ⟨only, single⟩ := List.length_eq_one_iff.mp
    (Nat.le_antisymm alone (List.length_pos_of_mem among))
  rw [single] at among
  obtain rfl := List.mem_singleton.mp among
  refine ⟨_, (congrArg (find tree · name) same).trans ((find_eq tree rest given whole).trans ?_),
    goal.components⟩
  rw [single]

/-- A search for no name finds the root, if it is a directory. -/
theorem search_directory (tree : FileTree) (rest : List Char)
    : Wildcard.search tree (Wildcard.Pattern.escape ('/' :: rest) ++ ['/'])
      = .ok ((below tree (piecesOf rest) (Path.ofText "/")).filter tree.isDirectory) := by
  have pieces : Wildcard.components (Wildcard.Pattern.escape rest ++ ['/'])
      = (rest.splitOn '/').map Wildcard.Pattern.escape := by
    have cut := (Text.pieces_eq_splitOn '/' (Wildcard.Pattern.escape rest ++ ['/'])).trans
      (by rw [List.splitOn_append_cons_self, Wildcard.splitOn_escape, List.splitOn_nil])
    unfold Wildcard.components
    dsimp only
    rw [cut, if_pos List.getLast?_concat, List.dropLast_concat]
  have read : Wildcard.readPatterns (Wildcard.components (Wildcard.Pattern.escape rest ++ ['/']))
      = .ok (piecesOf rest) := by
    rw [pieces]
    exact Wildcard.readPatterns_escape _
  have last : ('/' :: (Wildcard.Pattern.escape rest ++ ['/'])).getLast? = some '/' := by
    rw [← List.cons_append, List.getLast?_concat]
  exact (Wildcard.search_of_read read (by simp [piecesOf])).trans (by rw [if_pos last])

/-- For a name without a slash, nothing is found but the file of that name. -/
theorem find_of_no_file (rooted : tree.Rooted root top) (whole : '/' ∉ name.toList)
    (none' : ∀ content, tree.entry? (top ++ [Bytes.ofText name]) ≠ some (.file content))
    : find tree root name = .ok [] := by
  obtain ⟨rest, same, bytes⟩ := exists_rest rooted.absolute rooted.text
  by_cases given : name.toList = []
  · -- Nothing is a directory and a file.
    have escaped : Wildcard.Pattern.escape name.toList = [] := by rw [given]; rfl
    refine (congrArg (find tree · name) same).trans ?_
    simp only [find, literalRoot_ofText, filesFitting, escaped, search_directory]
    refine congrArg Except.ok (List.filter_eq_nil_iff.mpr fun path member file => ?_)
    obtain ⟨place, content, reached⟩ := FileTree.spot_of_isFile file
    have directory := (List.mem_filter.mp member).2
    simp [FileTree.isDirectory, FileTree.target?, reached] at directory
  · have finds := (congrArg (find tree · name) same).trans (find_eq tree rest given whole)
    refine finds.trans (congrArg Except.ok
      (List.eq_nil_iff_forall_not_mem.mpr fun path member => ?_))
    obtain ⟨file, absolute, read⟩ :=
      components_of_find rooted.named rooted.absolute given whole finds member
    by_cases here : Bytes.ofText name = [Path.dot]
    · -- The root itself is a directory.
      rw [here] at read
      have below := @FileTree.Rooted.below_of_isFile tree root path [] absolute read file
      obtain ⟨-, content, held⟩ := (rooted.isFile_iff below).mp file
      rw [List.append_nil, rooted.top_directory] at held
      cases held
    by_cases up : Bytes.ofText name = [Path.dot, Path.dot]
    · rw [up] at read
      rw [rooted.not_isFile_up read] at file
      cases file
    · have proper : IsName (Bytes.ofText name) :=
        isName_ofText (fun empty => given (empty ▸ rfl)) whole
          ⟨fun same => here (same ▸ rfl), fun same => up (same ▸ rfl)⟩
      rw [proper.component?_eq] at read
      have below :=
        @FileTree.Rooted.below_of_isFile tree root path [Bytes.ofText name] absolute read file
      obtain ⟨-, content, held⟩ := (rooted.isFile_iff below).mp file
      exact none' content held

end Inventory

end RouteDesk
