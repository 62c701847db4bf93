import RouteDesk.Proofs.Inventory.Rooted

/-! What a scan of a root finds: the regular files below it, each once with the names that lead to
it. The pieces of the root lead to a spelling of it that is no longer than the root, and from there
every level of directories is gone through.
-/

namespace RouteDesk

open RouteDesk.Path (slash)
open FileTree (IsName pathLimit linkLimit Rooted)
open Wildcard (tokenOf children descendants below fitsPath)

-----------------------------------------------------------------------------------------
-- Levels of directories
-----------------------------------------------------------------------------------------

namespace Wildcard

variable {tree : FileTree}

/-- Patterns in a row are followed one after the other, by induction on the first ones. -/
theorem below_append (tree : FileTree) (names : List (List Token)) (later : List Pattern)
    (path : Path)
    : below tree (names.map .name ++ later) path
      = (below tree (names.map .name) path).flatMap (below tree later) := by
  induction names generalizing path with
  | nil => simp [below]
  | cons tokens rest ih =>
      rw [List.map_cons, List.cons_append, below, below]
      cases literal? tokens with
      | some name =>
          dsimp only
          split
          · exact ih _
          · rfl
      | none =>
          dsimp only
          rw [List.flatMap_assoc]
          refine List.flatMap_congr fun child _ => ?_
          split
          · exact ih child
          · rfl

/-- So are the patterns of escaped texts. -/
theorem below_texts_append (tree : FileTree) (texts : List (List Char)) (later : List Pattern)
    (path : Path)
    : below tree ((texts.map fun text => .name (text.map tokenOf)) ++ later) path
      = (below tree (texts.map fun text => .name (text.map tokenOf)) path).flatMap
          (below tree later) := by
  have tokens : (texts.map fun text => Pattern.name (text.map tokenOf))
      = (texts.map (List.map tokenOf)).map .name := by
    rw [List.map_map]
    rfl
  rw [tokens, below_append]

theorem fits_anyText (name : List Char) : fits [.anyText] name = true := by
  rw [fits, List.any_eq_true]
  refine ⟨[], ?_, rfl⟩
  induction name with
  | nil => exact List.mem_singleton_self []
  | cons char rest ih => exact List.mem_cons_of_mem _ ih

/-- Below a directory of any depth, whatever has a text as its name fits. -/
theorem mem_below_anyDepth {path found : Path}
    : found ∈ below tree [.anyDepth, .name [.anyText]] path
      ↔ found ∈ descendants tree (levelLimit tree) path ∧ fitsPath [.anyText] found = true := by
  simp [below, atOrBelow]

section Levels

variable {root path : Path} {top : Place} {names : List Bytes}

theorem mem_children (rooted : tree.Rooted root top) (below : Path.Below root names path)
    {child : Path}
    : child ∈ children tree path
      ↔ path.bytes.length ≤ pathLimit
        ∧ ∃ name, tree.entry? (top ++ (names ++ [name])) ≠ none ∧ child = path.join ⟨name⟩ := by
  have within := Inventory.within_eq_join below.absolute
  unfold children
  constructor
  · intro member
    split at member
    case h_2 => cases member
    case h_1 place reached =>
      obtain ⟨short, rfl, -⟩ := (rooted.locate_iff below).mp reached
      obtain ⟨name, among, rfl⟩ := List.mem_map.mp member
      rw [FileTree.mem_names, List.append_assoc] at among
      exact ⟨short, name, among, within name⟩
  · rintro ⟨short, name, present, rfl⟩
    rw [← List.append_assoc] at present
    have directory := rooted.sound.directory_above present (List.cons_ne_nil name [])
    rw [(rooted.locate_iff below).mpr ⟨short, rfl, directory⟩]
    exact List.mem_map.mpr ⟨name, FileTree.mem_names.mpr present, within name⟩

/-- Descendants are written with the names of what stands there, by induction on the levels. -/
theorem exists_of_descendants (rooted : tree.Rooted root top) (below : Path.Below root names path)
    {levels : Nat} {found : Path} (member : found ∈ descendants tree levels path)
    : ∃ more, more ≠ [] ∧ tree.entry? (top ++ (names ++ more)) ≠ none
        ∧ found = path.descend more := by
  induction levels generalizing path names with
  | zero => cases member
  | succ levels ih =>
      obtain ⟨child, among, inside⟩ := List.mem_flatMap.mp member
      obtain ⟨-, name, present, rfl⟩ := (mem_children rooted below).mp among
      rcases List.mem_cons.mp inside with rfl | deeper
      · exact ⟨[name], List.cons_ne_nil _ _, present, rfl⟩
      · have proper := rooted.isName present name (by simp)
        obtain ⟨more, -, there, rfl⟩ := ih (below.join proper) deeper
        exact ⟨name :: more, List.cons_ne_nil _ _, by simpa using there, rfl⟩

/-- Whatever stands below a path that is not too long is among its descendants, by induction on
the names that lead there.
-/
theorem mem_descendants (rooted : tree.Rooted root top) (below : Path.Below root names path)
    {more : List Bytes} (given : more ≠ [])
    (present : tree.entry? (top ++ (names ++ more)) ≠ none)
    (short : (path.descend more).bytes.length ≤ pathLimit) {levels : Nat}
    (enough : more.length ≤ levels)
    : path.descend more ∈ descendants tree levels path := by
  induction more generalizing path names levels with
  | nil => exact absurd rfl given
  | cons name rest ih =>
      obtain ⟨levels, rfl⟩ := Nat.exists_eq_add_one.mpr (Nat.lt_of_lt_of_le (by simp) enough)
      have next : names ++ name :: rest = (names ++ [name]) ++ rest := by simp
      have proper := rooted.isName present
      obtain ⟨first, later⟩ := List.forall_mem_cons.mp (List.forall_mem_append.mp proper).2
      have there : tree.entry? (top ++ (names ++ [name])) ≠ none := by
        cases rest with
        | nil => exact present
        | cons second more =>
            rw [next, ← List.append_assoc] at present
            rw [rooted.sound.directory_above present (List.cons_ne_nil _ _)]
            nofun
      have onTheWay : path.bytes.length ≤ pathLimit :=
        Nat.le_trans (Path.length_le_descend below.absolute
          (List.forall_mem_cons.mpr ⟨first, later⟩)) short
      refine List.mem_flatMap.mpr ⟨path.join ⟨name⟩,
        (mem_children rooted below).mpr ⟨onTheWay, name, there, rfl⟩, ?_⟩
      by_cases last : rest = []
      · subst last
        exact List.mem_cons_self
      · refine List.mem_cons_of_mem _ (ih (below.join first) last (next ▸ present) short ?_)
        simpa using enough

/-- There are levels enough for every entry. -/
theorem length_le_levelLimit (rooted : tree.Rooted root top)
    (present : tree.entry? (top ++ names) ≠ none)
    : names.length ≤ levelLimit tree := by
  have places := rooted.sound.length_le present
  rw [List.length_append] at places
  have more : tree.entries.length + 1 ≤ levelLimit tree := Nat.le_mul_of_pos_right _ (by simp)
  omega

end Levels

-----------------------------------------------------------------------------------------
-- The pieces of a root
-----------------------------------------------------------------------------------------

section Pieces

variable {path : Path} {place : Place}

/-- The bytes of a piece of a pattern. -/
def bytesOf (text : List Char) : Bytes :=
  Bytes.ofText (String.ofList text)

/-- A path whose moves lead to a directory leads there too. -/
theorem locate_of_moves (absolute : path.isAbsolute = true) (clean : 0 ∉ path.bytes)
    (short : path.bytes.length ≤ pathLimit) {steps : List Step}
    (walks : tree.Walks true Path.steps linkLimit [] steps ⟨place, some .directory⟩)
    (moves : Step.moves path.steps = Step.moves steps)
    : tree.locate true path = .ok ⟨place, some .directory⟩ := by
  refine FileTree.locateBy_eq_ok_iff.mpr ⟨by simpa using clean, ?_, short, ?_⟩
  · obtain ⟨tail, bytes⟩ := (Path.isAbsolute_iff _).mp absolute
    rw [bytes]
    nofun
  · rw [absolute, if_pos rfl]
    exact FileTree.walk_eq_ok_iff.mpr (walks.of_moves moves.symm (.inl rfl))

theorem moves_steps_join (absolute : path.isAbsolute = true) {bytes : Bytes}
    (whole : slash ∉ bytes)
    : Step.moves (path.join ⟨bytes⟩).steps = Step.moves (path.steps ++ [.ofPiece bytes]) := by
  have single := Path.moves_map_ofPiece [bytes]
  have read : [bytes].filterMap Path.component? = (Path.component? bytes).toList := by
    rw [List.filterMap_cons]
    cases Path.component? bytes <;> rfl
  rw [List.map_singleton, read] at single
  rw [Path.moves_steps, Path.components_join absolute whole, List.filterMap_append,
    ← Path.moves_steps, FileTree.moves_append, single]

/-- A piece with characters that are escaped is read as a name. -/
theorem isName_of_special {text : List Char} (whole : slash ∉ bytesOf text)
    (special : literal? (text.map tokenOf) = none)
    : IsName (bytesOf text) := by
  have different {other : List Char} (plain : literal? (other.map tokenOf) ≠ none)
      : bytesOf text ≠ bytesOf other := by
    intro same
    obtain rfl := String.ofList_injective (Bytes.ofText_injective same)
    exact plain special
  exact .name whole (@different [] (by decide))
    ⟨@different ['.'] (by decide), @different ['.', '.'] (by decide)⟩

theorem ofPiece_of_isName {bytes : Bytes} (proper : IsName bytes)
    : Step.ofPiece bytes = .into bytes := by
  cases proper with
  | name _ given named => simp [Step.ofPiece, given, named.1, named.2]

/-- Before the last piece of a path that leads to something there is a directory, and a name leads
out of it only to an entry of it, be it a link.
-/
theorem locate_of_join (absolute : path.isAbsolute = true) {bytes : Bytes} (whole : slash ∉ bytes)
    {entry : Entry} (leads : tree.locate true (path.join ⟨bytes⟩) = .ok ⟨place, some entry⟩)
    : ∃ middle, tree.locate true path = .ok ⟨middle, some .directory⟩
        ∧ (IsName bytes → tree.entry? (middle ++ [bytes]) ≠ none) := by
  obtain ⟨clean, -, short, -⟩ := FileTree.locateBy_eq_ok_iff.mp leads
  have walks := FileTree.walks_of_locate leads
  rw [Path.isAbsolute_join absolute, if_pos rfl] at walks
  have last : (path.join ⟨bytes⟩).steps.getLast? = some (.ofPiece bytes) := by
    rw [Path.steps_eq_map, List.getLast?_map, Path.getLast?_splitOn_join path whole]
    rfl
  have ends : some entry = some .directory
      ∨ (path.join ⟨bytes⟩).steps.getLast? ≠ some .stay
        ∧ (path.steps ++ [Step.ofPiece bytes]).getLast? ≠ some .stay := by
    rw [List.getLast?_concat, last, and_self]
    exact or_iff_not_imp_left.mpr fun notDirectory => last ▸ walks.last_ne_stay notDirectory
  have along := walks.of_moves (moves_steps_join absolute whole) ends
  obtain ⟨fewer, middle, front, back⟩ := along.split rfl (List.cons_ne_nil _ _)
  refine ⟨middle, locate_of_moves absolute ?_ ?_ front rfl, fun proper => ?_⟩
  · rw [List.contains_eq_mem, decide_eq_false_iff_not] at clean
    exact fun inside => clean ((Path.prefix_join path whole).subset inside)
  · exact Nat.le_trans (Path.prefix_join path whole).length_le short
  · rw [ofPiece_of_isName proper] at back
    cases back with
    | halts directory short link stop => cases stop
    | jumps directory short link => simp [link]
    | enters directory short found => simp [found]

/-- A piece is followed to what it leads to, if a name is that of an entry of the directory. -/
theorem join_mem_below (absolute : path.isAbsolute = true)
    {middle : Place} (leads : tree.locate true path = .ok ⟨middle, some .directory⟩)
    {text : List Char} (whole : slash ∉ bytesOf text)
    (present : tree.isPresent (path.join ⟨bytesOf text⟩) = true)
    (there : IsName (bytesOf text) → tree.entry? (middle ++ [bytesOf text]) ≠ none)
    : path.join ⟨bytesOf text⟩ ∈ below tree [.name (text.map tokenOf)] path := by
  have within := Inventory.within_eq_join absolute (bytesOf text)
  rw [below]
  split
  case h_1 name literal =>
    obtain rfl := literal?_escape literal
    have leadsOn : leadsOn tree path name = true := by
      unfold Wildcard.leadsOn
      split
      · simp [FileTree.isDirectory, FileTree.target?, leads]
      · change (tree.isPresent (Wildcard.within path (bytesOf name)) || _) = true
        rw [within, present]
        rfl
    rw [if_pos leadsOn, below]
    exact List.mem_singleton.mpr within.symm
  case h_2 special =>
    have proper := isName_of_special whole special
    refine List.mem_flatMap.mpr ⟨path.join ⟨bytesOf text⟩, ?_, ?_⟩
    · rw [children, leads, ← within]
      exact List.mem_map.mpr ⟨bytesOf text, FileTree.mem_names.mpr (there proper), rfl⟩
    · have read : (path.join ⟨bytesOf text⟩).components
          = path.components ++ [.name (bytesOf text)] := by
        rw [Path.components_join absolute whole, proper.component?_eq]
        rfl
      have fitting : fitsPath (text.map tokenOf) (path.join ⟨bytesOf text⟩) = true := by
        rw [fitsPath, Path.fileName?_of_components read, Option.bind_some, bytesOf,
          Bytes.toText?_ofText]
        exact (fits_escape _ _).mpr (String.toList_ofList)
      rw [if_pos fitting, below]
      exact List.mem_singleton_self _

/-- The path that is written with these pieces. -/
def written (texts : List (List Char)) : Path :=
  ⟨slash :: [slash].intercalate (texts.map bytesOf)⟩

theorem written_concat {front : List (List Char)} (given : front ≠ []) (text : List Char)
    : (written (front ++ [text])).bytes = (written front).bytes ++ slash :: bytesOf text := by
  rw [written, written, List.map_append, List.map_singleton,
    Text.intercalate_concat slash (by simpa using given)]
  rfl

theorem mem_join {byte : UInt8} {bytes : Bytes} (whole : slash ∉ bytes)
    (member : byte ∈ (path.join ⟨bytes⟩).bytes)
    : byte ∈ path.bytes ∨ byte = slash ∨ byte ∈ bytes := by
  rw [Path.join, Path.isAbsolute_of_whole whole, if_neg (by decide)] at member
  split at member
  · exact (List.mem_append.mp member).imp_right .inr
  · exact (List.mem_append.mp member).imp_right List.mem_cons.mp

/-- A joined piece makes the path no longer than the written one. -/
theorem tighter_join (absolute : path.isAbsolute = true) {front : List (List Char)}
    (tighter : path.Tighter (written front)) (start : front = [] → path = Path.ofText "/")
    {text : List Char} (whole : slash ∉ bytesOf text)
    : (path.join ⟨bytesOf text⟩).Tighter (written (front ++ [text])) := by
  have relative := Path.isAbsolute_of_whole whole
  by_cases first : front = []
  · subst first
    have same : path.join ⟨bytesOf text⟩ = written [text] := by
      rw [start rfl, Path.join, relative, if_neg (by decide), if_pos (.inr rfl), written,
        List.map_singleton, List.intercalate_singleton]
      rfl
    rw [same]
    exact ⟨Nat.le_refl _, id⟩
  have more := written_concat first text
  have short := tighter.short
  refine ⟨?_, fun ends => ?_⟩
  · rw [more, Path.length_join absolute whole, List.length_append, List.length_cons]
    split <;> omega
  · rw [more, List.getLast?_append_of_ne_nil _ (List.cons_ne_nil _ _)] at ends
    have empty : bytesOf text = [] := by
      by_contra given
      obtain ⟨byte, rest, bytes⟩ := List.exists_cons_of_ne_nil given
      rw [bytes, List.getLast?_cons_cons, ← bytes] at ends
      exact whole (List.mem_of_getLast? ends)
    rw [Path.join, relative, if_neg (by decide), empty]
    split
    case isTrue closed =>
      obtain ⟨tail, bytes⟩ := (Path.isAbsolute_iff path).mp absolute
      have given : path.bytes ≠ [] := bytes ▸ List.cons_ne_nil _ _
      simpa using closed.resolve_left given
    case isFalse => exact List.getLast?_concat

/-- The pieces of a way to a directory are followed to a spelling of it that is no longer than
the way is written, by induction on the pieces from the last one on.
-/
theorem exists_mem_below {texts : List (List Char)} (whole : ∀ text ∈ texts, '/' ∉ text)
    (clean : ∀ text ∈ texts, 0 ∉ bytesOf text)
    (short : (written texts).bytes.length ≤ pathLimit)
    (walks : tree.Walks true Path.steps linkLimit []
      (texts.map fun text => .ofPiece (bytesOf text)) ⟨place, some .directory⟩)
    : ∃ start ∈ below tree (texts.map fun text => .name (text.map tokenOf)) (Path.ofText "/"),
        start.isAbsolute = true ∧ 0 ∉ start.bytes ∧ start.Tighter (written texts)
        ∧ tree.locate true start = .ok ⟨place, some .directory⟩
        ∧ Step.moves start.steps
          = Step.moves (texts.map fun text => .ofPiece (bytesOf text)) := by
  induction texts using List.reverseRecOn generalizing place with
  | nil =>
      cases walks with
      | arrives =>
          exact ⟨Path.ofText "/", by simp [below], rfl, by decide, ⟨by decide, id⟩, rfl, rfl⟩
  | append_singleton front text ih =>
      obtain ⟨frontWhole, lastWhole⟩ := List.forall_mem_append.mp whole
      obtain ⟨frontClean, lastClean⟩ := List.forall_mem_append.mp clean
      have piece : slash ∉ bytesOf text :=
        Bytes.not_mem_ofText (lastWhole text (List.mem_singleton_self _))
      have frontShort : (written front).bytes.length ≤ pathLimit := by
        by_cases first : front = []
        · subst first
          decide
        · rw [written_concat first text, List.length_append] at short
          omega
      rw [List.map_append, List.map_singleton] at walks
      obtain ⟨fewer, middle, before, -⟩ := walks.split rfl (List.cons_ne_nil _ _)
      obtain ⟨start, member, absolute, startClean, tighter, leads, moves⟩ :=
        ih frontWhole frontClean frontShort before
      have first (empty : front = []) : start = Path.ofText "/" := by
        subst empty
        simpa [below] using member
      have tight := tighter_join absolute tighter first piece
      have absolute' := Path.isAbsolute_join absolute ⟨bytesOf text⟩
      have clean' : 0 ∉ (start.join ⟨bytesOf text⟩).bytes := fun inside => by
        rcases mem_join piece inside with front | mark | back
        · exact startClean front
        · cases mark
        · exact lastClean text (List.mem_singleton_self _) back
      have moves' : Step.moves (start.join ⟨bytesOf text⟩).steps
          = Step.moves ((front ++ [text]).map fun text => .ofPiece (bytesOf text)) := by
        rw [moves_steps_join absolute piece, FileTree.moves_append, moves, List.map_append,
          FileTree.moves_append]
        rfl
      have leads' := locate_of_moves absolute' clean' (Nat.le_trans tight.short short) walks
        (by rw [moves', List.map_append, List.map_singleton])
      refine ⟨_, ?_, absolute', clean', tight, leads', moves'⟩
      rw [List.map_append, below_texts_append, List.mem_flatMap]
      obtain ⟨between, again, there⟩ := locate_of_join absolute piece leads'
      exact ⟨start, member, join_mem_below absolute again piece
        (by simp [FileTree.isPresent, FileTree.target?, leads']) there⟩

end Pieces

end Wildcard

-----------------------------------------------------------------------------------------
-- Scans
-----------------------------------------------------------------------------------------

namespace Inventory

variable {tree : FileTree} {root : Path} {top : Place}

/-- The patterns for the pieces of an absolute root. -/
def piecesOf (rest : List Char) : List Wildcard.Pattern :=
  (rest.splitOn '/').map fun text => .name (text.map tokenOf)

theorem below_piecesOf (tree : FileTree) (rest : List Char) (later : List Wildcard.Pattern)
    : below tree (piecesOf rest ++ later) (Path.ofText "/")
      = (below tree (piecesOf rest) (Path.ofText "/")).flatMap (below tree later) :=
  Wildcard.below_texts_append tree _ later _

theorem exists_rest (absolute : root.isAbsolute = true) (text : Bytes.IsText root.bytes)
    : ∃ rest, root = Path.ofText (String.ofList ('/' :: rest))
        ∧ root.bytes = slash :: Bytes.ofText (String.ofList rest) := by
  obtain ⟨tail, rfl⟩ := (Path.isAbsolute_iff root).mp absolute
  obtain ⟨text, bytes⟩ := text
  obtain ⟨rest, chars, behind⟩ := exists_toList bytes
  refine ⟨rest, ?_, congrArg (slash :: ·) behind.symm⟩
  rw [← chars, String.ofList_toList, Path.ofText, bytes]

theorem all_eq (tree : FileTree) (rest : List Char)
    : all tree (Path.ofText (String.ofList ('/' :: rest)))
      = .ok (((below tree (piecesOf rest) (Path.ofText "/")).flatMap
          (below tree [.anyDepth, .name [.anyText]])).filter tree.isFile) := by
  simp only [all, literalRoot_ofText, filesFitting, search_all]
  rw [← below_piecesOf]
  rfl

/-- The pieces of a root lead to nothing but spellings of it. -/
theorem below_of_mem_piecesOf (rooted : tree.Rooted root top) {rest : List Char}
    (bytes : root.bytes = slash :: Bytes.ofText (String.ofList rest)) {start : Path}
    (member : start ∈ below tree (piecesOf rest) (Path.ofText "/"))
    : Path.Below root [] start := by
  obtain ⟨absolute, components⟩ := components_of_below rooted.named
    (fun _ => Text.not_mem_of_mem_splitOn) rfl member
  refine ⟨absolute, ?_, absurd rfl⟩
  have read : root.components = .root :: ((rest.splitOn '/').map fun text =>
      Bytes.ofText (String.ofList text)).filterMap Path.component? := by
    rw [show root = ⟨slash :: Bytes.ofText (String.ofList rest)⟩ from congrArg Path.mk bytes,
      Path.components_absolute, Bytes.splitOn_ofText]
  rw [components, read, List.map_nil, List.append_nil]
  rfl

/-- The pieces of a root lead to a spelling of it that is no longer. -/
theorem exists_mem_piecesOf (rooted : tree.Rooted root top) {rest : List Char}
    (bytes : root.bytes = slash :: Bytes.ofText (String.ofList rest))
    : ∃ start ∈ below tree (piecesOf rest) (Path.ofText "/"), start.Tighter root := by
  have cut := Bytes.splitOn_ofText rest
  obtain ⟨clean, -, short, -⟩ := FileTree.locateBy_eq_ok_iff.mp rooted.leads
  have walks := FileTree.walks_of_locate rooted.leads
  have same : Wildcard.written (rest.splitOn '/') = root := by
    refine congrArg Path.mk (Eq.trans ?_ bytes.symm)
    change slash :: [slash].intercalate ((rest.splitOn '/').map fun text =>
      Bytes.ofText (String.ofList text)) = _
    rw [← cut, List.intercalate_splitOn]
  rw [rooted.absolute, if_pos rfl, Path.steps_eq_map, bytes, ← List.nil_append (slash :: _),
    List.splitOn_append_cons_self, List.splitOn_nil, List.singleton_append, cut, List.map_cons,
    List.map_map] at walks
  have clean' (text : List Char) (member : text ∈ rest.splitOn '/')
      : 0 ∉ Wildcard.bytesOf text := fun inside => by
    rw [List.contains_eq_mem, decide_eq_false_iff_not, bytes, List.mem_cons,
      or_iff_right (by decide), @Text.mem_iff_of_ne _ _ slash 0 (by decide), cut] at clean
    exact clean ⟨_, List.mem_map_of_mem member, inside⟩
  cases walks with
  | stays directory onward =>
      obtain ⟨start, member, -, -, tighter, -⟩ := Wildcard.exists_mem_below
        (fun _ => Text.not_mem_of_mem_splitOn) clean' (same ▸ short) onward
      exact ⟨start, member, same ▸ tighter⟩

/-- What a scan of a root makes known: all regular files below it whose names are text and whose
paths are not too long, and nothing else.
-/
structure Scanned (tree : FileTree) (root : Path) (top : Place) (found : List Path) : Prop where
  files (path : Path) (member : path ∈ found) : root.IsInside path ∧ tree.isFile path = true
  all (names : List Bytes) (content : Bytes)
    (held : tree.entry? (top ++ names) = some (.file content))
    (texts : ∀ name ∈ names, Bytes.IsText name)
    (short : (root.descend names).bytes.length ≤ pathLimit)
    : ∃ path ∈ found, Path.Below root names path

theorem exists_scanned (rooted : tree.Rooted root top)
    : ∃ found, all tree root = .ok found ∧ Scanned tree root top found := by
  obtain ⟨rest, same, bytes⟩ := exists_rest rooted.absolute rooted.text
  refine ⟨_, (congrArg (all tree) same).trans (all_eq tree rest), fun path member => ?_,
    fun names content held texts short => ?_⟩
  · obtain ⟨among, file⟩ := List.mem_filter.mp member
    obtain ⟨start, spelled, inside⟩ := List.mem_flatMap.mp among
    have below := below_of_mem_piecesOf rooted bytes spelled
    obtain ⟨descends, -⟩ := Wildcard.mem_below_anyDepth.mp inside
    obtain ⟨more, given, present, rfl⟩ := Wildcard.exists_of_descendants rooted below descends
    have proper := rooted.isName present
    exact ⟨⟨more, given, proper, below.descend proper⟩, file⟩
  · have present : tree.entry? (top ++ names) ≠ none := by simp [held]
    have proper := rooted.isName present
    have given : names ≠ [] := by
      rintro rfl
      rw [List.append_nil, rooted.top_directory] at held
      cases held
    obtain ⟨start, spelled, tighter⟩ := exists_mem_piecesOf rooted bytes
    have spells := below_of_mem_piecesOf rooted bytes spelled
    have below := spells.descend proper
    rw [List.nil_append] at below
    have short' := Nat.le_trans
      (tighter.descend spells.absolute rooted.absolute proper).short short
    have descends := Wildcard.mem_descendants rooted spells given present short'
      (Wildcard.length_le_levelLimit rooted present)
    have fitting : fitsPath [.anyText] (start.descend names) = true := by
      obtain ⟨front, last, rfl⟩ := (List.eq_nil_or_concat names).resolve_left given
      rw [List.concat_eq_append] at below ⊢ texts
      obtain ⟨text, bytes⟩ := texts last (by simp)
      have read : (start.descend (front ++ [last])).components
          = root.components ++ front.map .name ++ [.name last] := by
        rw [below.components]
        simp
      rw [fitsPath, Path.fileName?_of_components read, Option.bind_some, ← bytes,
        Bytes.toText?_ofText]
      exact Wildcard.fits_anyText _
    refine ⟨start.descend names, List.mem_filter.mpr ⟨List.mem_flatMap.mpr ⟨start, spelled, ?_⟩,
      (rooted.isFile_iff below).mpr ⟨short', content, held⟩⟩, below⟩
    exact Wildcard.mem_below_anyDepth.mpr ⟨descends, fitting⟩

/-- Under a plain root, nothing is found whose path would be too long. -/
theorem not_found_of_long (rooted : tree.Rooted root top) (plain : root.IsPlain)
    {names : List Bytes} (proper : ∀ name ∈ names, IsName name)
    (long : pathLimit < (root.descend names).bytes.length) {found : List Path}
    (finds : all tree root = .ok found) {path : Path} (member : path ∈ found)
    : path.components ≠ root.components ++ names.map .name := by
  intro read
  obtain ⟨found', finds', scanned⟩ := exists_scanned rooted
  obtain rfl := Except.ok.inj (finds.symm.trans finds')
  have same := (isPlain_of_all rooted.named plain finds member).eq_of_components
    (plain.descend proper)
    (read.trans (Path.below_descend rooted.absolute proper).components.symm)
  have present := FileTree.isPresent_of_isFile (scanned.files path member).2
  rw [same, FileTree.isPresent_of_long long] at present
  cases present

end Inventory

end RouteDesk
