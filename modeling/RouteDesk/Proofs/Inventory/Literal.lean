import RouteDesk.Proofs.Inventory.Depths
import RouteDesk.Proofs.Inventory.Lookups

/-! A search for a name under an absolute root looks at one path, through links and whatever special
characters stand in the root and the name: that of the name in the root, without the empty pieces
that slashes in a row leave. It finds that path if it is a regular file, and nothing otherwise.
-/

namespace RouteDesk

open RouteDesk.Path (slash component?)
open FileTree (IsName pathLimit)
open Wildcard (tokenOf below bytesOf)

-----------------------------------------------------------------------------------------
-- Paths without empty pieces
-----------------------------------------------------------------------------------------

namespace Path

/-- The pieces that are not empty. -/
def given (pieces : List Bytes) : List Bytes :=
  pieces.filter (· ≠ [])

/-- The absolute path of these pieces, but for those that are empty. -/
def ofPieces (pieces : List Bytes) : Path :=
  ⟨slash :: [slash].intercalate (given pieces)⟩

/-- The absolute path of the same pieces, but for those that are empty. -/
def squeezed (path : Path) : Path :=
  ofPieces (path.bytes.splitOn slash)

theorem given_append (front back : List Bytes)
    : given (front ++ back) = given front ++ given back :=
  List.filter_append front back

theorem given_singleton {piece : Bytes} (some' : piece ≠ []) : given [piece] = [piece] :=
  List.filter_cons_of_pos (by simpa using some')

theorem whole_of_mem_given {pieces : List Bytes} (whole : ∀ piece ∈ pieces, slash ∉ piece)
    : ∀ piece ∈ given pieces, slash ∉ piece ∧ piece ≠ [] := fun piece member =>
  ⟨whole piece (List.mem_of_mem_filter member), by simpa using List.of_mem_filter member⟩

theorem filterMap_given (pieces : List Bytes)
    : (given pieces).filterMap component? = pieces.filterMap component? := by
  induction pieces with
  | nil => rfl
  | cons piece rest ih =>
      unfold given at ih ⊢
      by_cases empty : piece = []
      · rw [List.filter_cons_of_neg (by simpa using empty), ih, List.filterMap_cons, empty]
        rfl
      · rw [List.filter_cons_of_pos (by simpa using empty), List.filterMap_cons,
          List.filterMap_cons, ih]

/-- What stands before the first slash of an absolute path is empty. -/
theorem squeezed_absolute (tail : Bytes)
    : (⟨slash :: tail⟩ : Path).squeezed = ofPieces (tail.splitOn slash) := by
  rw [squeezed, ofPieces, splitOn_slash_cons]
  rfl

/-- Slashes in front are not kept. -/
theorem squeezed_slashed (count : Nat) (path : Path)
    : (path.slashed count).squeezed = path.squeezed := by
  induction count with
  | zero => rfl
  | succ count ih =>
      rw [← ih, slashed_succ, squeezed_absolute]
      rfl

/-- A plain path has no empty pieces. -/
theorem IsPlain.squeezed_eq {path : Path} (plain : path.IsPlain) : path.squeezed = path := by
  rcases plain.eq_top_or_pieces with rfl | ⟨-, tail, bytes, pieces⟩
  · decide
  · obtain rfl : path = ⟨slash :: tail⟩ := congrArg mk bytes
    have all : given (tail.splitOn slash) = tail.splitOn slash :=
      List.filter_eq_self.mpr fun piece member => by simpa using (pieces piece member).ne_nil
    rw [squeezed_absolute, ofPieces, all, List.intercalate_splitOn]

/-- Empty pieces are not read. -/
theorem components_ofPieces {pieces : List Bytes} (whole : ∀ piece ∈ pieces, slash ∉ piece)
    : (ofPieces pieces).components = .root :: pieces.filterMap component? := by
  rw [ofPieces, components_absolute]
  refine congrArg (Component.root :: ·) ?_
  by_cases none' : given pieces = []
  · rw [← filterMap_given pieces, none']
    rfl
  · rw [List.splitOn_intercalate slash
      (fun piece member => (whole_of_mem_given whole piece member).1) none', filterMap_given]

theorem components_squeezed {path : Path} (absolute : path.isAbsolute = true)
    : path.squeezed.components = path.components := by
  obtain ⟨tail, rfl⟩ := (isAbsolute_iff path).mp absolute
  rw [squeezed_absolute, components_ofPieces fun _ => Text.not_mem_of_mem_splitOn,
    components_absolute]

/-- No bytes are added. -/
theorem squeezed_sublist {path : Path} (absolute : path.isAbsolute = true)
    : path.squeezed.bytes.Sublist path.bytes := by
  obtain ⟨tail, rfl⟩ := (isAbsolute_iff path).mp absolute
  rw [squeezed_absolute]
  have below := Text.intercalate_sublist [slash]
    (show (given (tail.splitOn slash)).Sublist (tail.splitOn slash) from List.filter_sublist)
  rw [List.intercalate_splitOn] at below
  exact below.cons_cons slash

/-- The path ends in its last piece that is not empty, if there is one. -/
theorem getLast?_ofPieces {pieces : List Bytes} (whole : ∀ piece ∈ pieces, slash ∉ piece)
    (some' : given pieces ≠ [])
    : (ofPieces pieces).bytes.getLast? ≠ some slash := by
  obtain ⟨front, last, split⟩ := (List.eq_nil_or_concat (given pieces)).resolve_left some'
  rw [List.concat_eq_append] at split
  have proper := whole_of_mem_given whole last (by simp [split])
  have ends : ∃ before, (ofPieces pieces).bytes = before ++ last := by
    rw [ofPieces, split]
    by_cases first : front = []
    · exact ⟨[slash], by rw [first, List.nil_append, List.intercalate_singleton]; rfl⟩
    · rw [Text.intercalate_concat slash first]
      exact ⟨slash :: [slash].intercalate front ++ [slash], by simp⟩
  obtain ⟨before, same⟩ := ends
  rw [same, List.getLast?_append_of_ne_nil _ proper.2]
  exact fun marked => proper.1 (List.mem_of_getLast? marked)

/-- The path is that of the pieces, with or without a slash behind the last one. -/
def Spells (path : Path) (pieces : List Bytes) : Prop :=
  path = ofPieces pieces
    ∨ given pieces ≠ [] ∧ path = ⟨(ofPieces pieces).bytes ++ [slash]⟩

variable {path : Path} {pieces : List Bytes} {piece : Bytes}

/-- A piece that is joined comes behind the others. -/
theorem Spells.join_given (spells : path.Spells pieces) (whole : ∀ piece ∈ pieces, slash ∉ piece)
    (unbroken : slash ∉ piece) (some' : piece ≠ [])
    : path.join ⟨piece⟩ = ofPieces (pieces ++ [piece]) := by
  have more : given (pieces ++ [piece]) = given pieces ++ [piece] := by
    rw [given_append, given_singleton some']
  by_cases first : given pieces = []
  · obtain rfl := spells.resolve_right fun marked => marked.1 first
    have top : ofPieces pieces = ⟨[slash]⟩ := by
      rw [ofPieces, first]
      rfl
    rw [top, join_closed rfl unbroken, ofPieces, more, first, List.nil_append,
      List.intercalate_singleton]
    rfl
  · have joined : ofPieces (pieces ++ [piece])
        = ⟨(ofPieces pieces).bytes ++ slash :: piece⟩ := by
      rw [ofPieces, more, Text.intercalate_concat slash first]
      rfl
    have written : (ofPieces pieces).bytes ≠ [] := List.cons_ne_nil _ _
    rcases spells with rfl | ⟨-, rfl⟩
    · rw [join_open written (getLast?_ofPieces whole first) unbroken, joined]
    · rw [join_closed List.getLast?_concat unbroken, joined, List.append_assoc]
      rfl

/-- An empty piece that is joined leaves at most a slash. -/
theorem Spells.join_empty (spells : path.Spells pieces) (whole : ∀ piece ∈ pieces, slash ∉ piece)
    : (path.join ⟨[]⟩).Spells (pieces ++ [[]]) := by
  have same : given (pieces ++ [[]]) = given pieces := by
    rw [given_append]
    exact List.append_nil _
  have alike : ofPieces (pieces ++ [[]]) = ofPieces pieces := by
    rw [ofPieces, same, ofPieces]
  rw [Spells, same, alike]
  by_cases first : given pieces = []
  · obtain rfl := spells.resolve_right fun marked => marked.1 first
    have top : ofPieces pieces = ⟨[slash]⟩ := by
      rw [ofPieces, first]
      rfl
    rw [top, join_closed rfl List.not_mem_nil]
    exact .inl rfl
  · refine .inr ⟨first, ?_⟩
    rcases spells with rfl | ⟨-, rfl⟩
    · exact join_open (List.cons_ne_nil _ _) (getLast?_ofPieces whole first) List.not_mem_nil
    · rw [join_closed List.getLast?_concat List.not_mem_nil, List.append_nil]

end Path

-----------------------------------------------------------------------------------------
-- The path that is looked at
-----------------------------------------------------------------------------------------

namespace Inventory

/-- Texts lead from the top to a path of their pieces, by induction on them. -/
theorem spells_spelled {texts : List (List Char)} (whole : ∀ text ∈ texts, '/' ∉ text)
    : (spelled (Path.ofText "/") texts).Spells (texts.map bytesOf) := by
  induction texts using List.reverseRecOn with
  | nil => exact .inl rfl
  | append_singleton front text ih =>
      obtain ⟨before, last⟩ := List.forall_mem_append.mp whole
      have pieces : ∀ piece ∈ front.map bytesOf, slash ∉ piece :=
        List.forall_mem_map.mpr fun text member => Bytes.not_mem_ofText (before text member)
      have unbroken : slash ∉ bytesOf text := Bytes.not_mem_ofText (last text List.mem_cons_self)
      rw [spelled, List.foldl_append, List.map_append]
      change ((spelled (Path.ofText "/") front).join ⟨bytesOf text⟩).Spells _
      by_cases empty : bytesOf text = []
      · rw [List.map_singleton, empty]
        exact (ih before).join_empty pieces
      · exact .inl ((ih before).join_given pieces unbroken empty)

/-- The pieces of a root and a name lead to the path of the name in the root. -/
theorem spelled_piecesTo (rest : List Char) {name : String} (proper : IsName (Bytes.ofText name))
    : spelled (Path.ofText "/") (piecesTo rest name)
      = ((Path.ofText (String.ofList ('/' :: rest))).child name).squeezed := by
  have whole : ∀ text ∈ rest.splitOn '/', '/' ∉ text := fun _ => Text.not_mem_of_mem_splitOn
  have pieces : ∀ piece ∈ (rest.splitOn '/').map bytesOf, slash ∉ piece :=
    List.forall_mem_map.mpr fun text member => Bytes.not_mem_ofText (whole text member)
  have joined : spelled (Path.ofText "/") (piecesTo rest name)
      = Path.ofPieces ((rest.splitOn '/').map bytesOf ++ [Bytes.ofText name]) := by
    rw [spelled, piecesTo, List.foldl_append, List.foldl_cons, String.ofList_toList, List.foldl_nil]
    exact (spells_spelled whole).join_given pieces proper.whole proper.ne_nil
  obtain ⟨front, ends, parted⟩ := Path.exists_splitOn_join
    (Path.ofText (String.ofList ('/' :: rest))) proper.whole
  have cut : (Path.ofText (String.ofList ('/' :: rest))).bytes.splitOn slash
      = [[]] ++ (rest.splitOn '/').map bytesOf := by
    rw [Path.ofText, Bytes.splitOn_ofText, ← List.nil_append ('/' :: rest),
      List.splitOn_append_cons_self, List.splitOn_nil, List.map_append]
    rfl
  have same : Path.given front = Path.given ((rest.splitOn '/').map bytesOf) := by
    rw [cut] at parted
    rcases parted with parted | parted
    · exact (congrArg Path.given parted).symm
    · have dropped := congrArg Path.given parted
      rw [Path.given_append, Path.given_append front] at dropped
      exact (dropped.trans (List.append_nil _)).symm
  rw [joined, Path.squeezed, Path.child]
  change _ = Path.ofPieces (((Path.ofText (String.ofList ('/' :: rest))).join
    ⟨Bytes.ofText name⟩).bytes.splitOn slash)
  rw [ends, Path.ofPieces, Path.ofPieces, Path.given_append, Path.given_append, same]

/-- What leads to something is found by its pieces, by induction on them: before every piece there
is a directory with an entry of its name.
-/
theorem spelled_mem_below {tree : FileTree} {texts : List (List Char)}
    (whole : ∀ text ∈ texts, '/' ∉ text) {place : Place} {entry : Entry}
    (leads : tree.locate true (spelled (Path.ofText "/") texts) = .ok ⟨place, some entry⟩)
    : spelled (Path.ofText "/") texts
      ∈ below tree (texts.map fun text => .name (text.map tokenOf)) (Path.ofText "/") := by
  induction texts using List.reverseRecOn generalizing place entry with
  | nil => exact List.mem_singleton_self _
  | append_singleton front text ih =>
      obtain ⟨before, last⟩ := List.forall_mem_append.mp whole
      have unbroken : slash ∉ bytesOf text := Bytes.not_mem_ofText (last text List.mem_cons_self)
      have absolute := (components_spelled before (rfl : (Path.ofText "/").isAbsolute = true)).1
      have joins : spelled (Path.ofText "/") (front ++ [text])
          = (spelled (Path.ofText "/") front).join ⟨bytesOf text⟩ := List.foldl_append
      rw [joins] at leads ⊢
      obtain ⟨middle, directory, there⟩ := Wildcard.locate_of_join absolute unbroken leads
      have present
          : tree.isPresent ((spelled (Path.ofText "/") front).join ⟨bytesOf text⟩) = true := by
        simp [FileTree.isPresent, FileTree.target?, leads]
      rw [List.map_append, Wildcard.below_texts_append]
      exact List.mem_flatMap.mpr ⟨_, ih before directory,
        Wildcard.join_mem_below absolute directory unbroken present there⟩

-----------------------------------------------------------------------------------------
-- What is found
-----------------------------------------------------------------------------------------

variable {tree : FileTree} {root : Path} {name : String}

/-- A search for a name in a root comes down to whether one path leads to a regular file. The path
is read as that of the name in the root, and is the same file unless the latter is longer than the
system takes.
-/
structure LooksAt (tree : FileTree) (root : Path) (name : String) (path : Path) : Prop where
  finds : find tree root name = .ok (if tree.isFile path = true then [path] else [])
  agrees : path.agrees (root.child name) = true
  file : tree.isFile (root.child name) = true → tree.isFile path = true
  short : (root.child name).bytes.length ≤ pathLimit
    → tree.isFile path = tree.isFile (root.child name)

/-- The pieces of a root and a name lead to their path alone, if it leads to a file. -/
theorem filter_below (named : tree.Named) (once : tree.Distinct) (rest : List Char)
    (whole : '/' ∉ name.toList)
    : (below tree ((piecesTo rest name).map fun text => .name (text.map tokenOf))
        (Path.ofText "/")).filter tree.isFile
      = if tree.isFile (spelled (Path.ofText "/") (piecesTo rest name)) = true
        then [spelled (Path.ofText "/") (piecesTo rest name)] else [] := by
  have pieces : ∀ text ∈ piecesTo rest name, '/' ∉ text :=
    List.forall_mem_append.mpr ⟨fun _ => Text.not_mem_of_mem_splitOn,
      List.forall_mem_singleton.mpr whole⟩
  have only (path : Path) (member : path ∈ below tree
      ((piecesTo rest name).map fun text => .name (text.map tokenOf)) (Path.ofText "/"))
      : path = spelled (Path.ofText "/") (piecesTo rest name) :=
    eq_spelled_of_below named rfl member
  split
  case isTrue file =>
    obtain ⟨place, content, leads⟩ := FileTree.spot_of_isFile file
    have member := List.mem_filter.mpr ⟨spelled_mem_below pieces leads, file⟩
    have alone := Nat.le_trans (List.length_filter_le tree.isFile _)
      (@Wildcard.length_below_le tree named once (piecesTo rest name) (Path.ofText "/") rfl)
    obtain ⟨single, same⟩ := List.length_eq_one_iff.mp
      (Nat.le_antisymm alone (List.length_pos_of_mem member))
    rw [same] at member ⊢
    rw [List.mem_singleton.mp member]
  case isFalse notFile =>
    exact List.filter_eq_nil_iff.mpr fun path member file => notFile (only path member ▸ file)

theorem spelled_eq_squeezed {rest : List Char}
    (same : root = Path.ofText (String.ofList ('/' :: rest))) (proper : IsName (Bytes.ofText name))
    : spelled (Path.ofText "/") (piecesTo rest name) = (root.child name).squeezed :=
  (spelled_piecesTo rest proper).trans (by rw [same])

/-- A search comes down to the path without empty pieces. -/
theorem find_eq_squeezed (named : tree.Named) (once : tree.Distinct)
    (absolute : root.isAbsolute = true) (text : Bytes.IsText root.bytes)
    (proper : IsName (Bytes.ofText name))
    : find tree root name
      = .ok (if tree.isFile (root.child name).squeezed = true then [(root.child name).squeezed]
          else []) := by
  obtain ⟨given, whole⟩ := toList_of_isName proper
  obtain ⟨rest, same, -⟩ := exists_rest absolute text
  rw [← spelled_eq_squeezed same proper, ← filter_below named once rest whole]
  exact (congrArg (find tree · name) same).trans (find_eq tree rest given whole)

/-- A search for a name under an absolute root is literal, whatever links are in the tree and
whatever special characters in the root and the name.
-/
theorem looksAt_squeezed (named : tree.Named) (once : tree.Distinct)
    (absolute : root.isAbsolute = true) (text : Bytes.IsText root.bytes) (given : name ≠ "")
    (whole : '/' ∉ name.toList) (proper : name ≠ "." ∧ name ≠ "..")
    : LooksAt tree root name (root.child name).squeezed := by
  have isName := isName_ofText given whole proper
  obtain ⟨rest, same, -⟩ := exists_rest absolute text
  have childAbsolute : (root.child name).isAbsolute = true := Path.isAbsolute_join absolute _
  have read := Path.components_squeezed childAbsolute
  have squeezedAbsolute : (root.child name).squeezed.isAbsolute = true := rfl
  have last : ((root.child name).squeezed.bytes.splitOn slash).getLast?
      = some (Bytes.ofText name) := by
    rw [← spelled_eq_squeezed same isName, spelled, piecesTo, List.foldl_append, List.foldl_cons,
      String.ofList_toList]
    exact Path.getLast?_splitOn_join _ isName.whole
  have file (file : tree.isFile (root.child name) = true)
      : tree.isFile (root.child name).squeezed = true := by
    obtain ⟨place, content, leads⟩ := FileTree.spot_of_isFile file
    obtain ⟨-, -, short, -⟩ := FileTree.locateBy_eq_ok_iff.mp leads
    exact FileTree.isFile_congr childAbsolute squeezedAbsolute read isName last
      (Nat.le_trans (Path.squeezed_sublist childAbsolute).length_le short) file
  have back (short : (root.child name).bytes.length ≤ pathLimit)
      (file : tree.isFile (root.child name).squeezed = true)
      : tree.isFile (root.child name) = true :=
    FileTree.isFile_child absolute isName squeezedAbsolute
      (read.trans (FileTree.components_child root isName)) short file
  exact {
    finds := find_eq_squeezed named once absolute text isName
    agrees := beq_iff_eq.mpr read
    file := file
    short := fun short => Bool.eq_iff_iff.mpr ⟨back short, file⟩ }

/-- A directory with a bracket in its name, a file in it that could fit more, and a link to it. -/
def bracketed : FileTree :=
  .grown [.makeDirectories (Path.ofText "/re[al]"), .write (Path.ofText "/re[al]/a[1]*") [],
    .write (Path.ofText "/re[al]/a1b") [], .link (Path.ofText "/li?k") (Path.ofText "/re[al]")]

/-- A file with special characters in its name is found through a link, and no other one. -/
theorem looksAt_squeezed_bracketed
    : bracketed.Named ∧ bracketed.Distinct
      ∧ LooksAt bracketed (Path.ofText "/li?k//") "a[1]*" (Path.ofText "/li?k/a[1]*")
      ∧ find bracketed (Path.ofText "/li?k//") "a[1]*" = .ok [Path.ofText "/li?k/a[1]*"] := by
  have named : bracketed.Named := FileTree.durable_named.grown ⟨nofun, nofun⟩ _
  have once : bracketed.Distinct := FileTree.durable_distinct.grown List.nodup_nil _
  have squeezes : ((Path.ofText "/li?k//").child "a[1]*").squeezed = Path.ofText "/li?k/a[1]*" := by
    decide
  have looks : LooksAt bracketed (Path.ofText "/li?k//") "a[1]*" (Path.ofText "/li?k/a[1]*") :=
    squeezes ▸ looksAt_squeezed named once rfl ⟨"/li?k//", rfl⟩ (by decide) (by decide) (by decide)
  have file : bracketed.isFile (Path.ofText "/li?k/a[1]*") = true := by decide
  exact ⟨named, once, looks, by rw [looks.finds, if_pos file]⟩

/-- In a deep directory that is written with a few slashes too many, the file is found. -/
theorem find_wide (proper : IsName (Bytes.ofText name))
    (fits : (Bytes.ofText name).length ≤ 14 ∧ 0 ∉ Bytes.ofText name)
    : find (Deep.holding (Bytes.ofText name)) Deep.wide name = .ok [Deep.root.child name] := by
  have rooted := Deep.rooted_wide.2 proper ⟨fits.1.trans (by decide), fits.2⟩
  have squeezes : (Deep.wide.child name).squeezed = Deep.root.child name := by
    rw [Deep.child_wide proper, Path.squeezed_slashed]
    exact (Deep.isPlain_root.join proper).squeezed_eq
  rw [find_eq_squeezed rooted.named rooted.once rooted.absolute rooted.text proper, squeezes,
    if_pos (Deep.isFile_child_root proper fits)]

/-- There the path of the name itself is too long to lead to the file. -/
theorem finds_overlong
    : (Deep.holding (Bytes.ofText "a")).Rooted Deep.wide Deep.place
      ∧ find (Deep.holding (Bytes.ofText "a")) Deep.wide "a" = .ok [Deep.root.child "a"]
      ∧ (Deep.holding (Bytes.ofText "a")).isFile (Deep.wide.child "a") = false := by
  have proper : IsName (Bytes.ofText "a") := isName_ofText (by decide) (by decide) (by decide)
  refine ⟨Deep.rooted_wide.2 proper (by decide), find_wide proper (by decide), ?_⟩
  rw [← Bool.not_eq_true]
  intro file
  have present := FileTree.isPresent_of_isFile file
  rw [FileTree.isPresent_of_long (Deep.pathLimit_lt_child_wide proper)] at present
  cases present

end Inventory

end RouteDesk
