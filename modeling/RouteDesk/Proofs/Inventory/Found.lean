import RouteDesk.Inventory.Disk
import RouteDesk.Proofs.FileTree.Named
import RouteDesk.Proofs.Json.Legible
import RouteDesk.Proofs.Wildcard.Escaped

/-! What a search for a name under a root finds: nothing else than the file of that name directly
under the root, however the root is written. So what was found is there for everyone who looks at
the path of the name.
-/

namespace RouteDesk

open RouteDesk.Path (slash dot component?)
open FileTree (IsName)
open Wildcard (tokenOf within below fits fitsPath)

-----------------------------------------------------------------------------------------
-- Joined paths
-----------------------------------------------------------------------------------------

namespace Path

theorem isAbsolute_join {directory : Path} (absolute : directory.isAbsolute = true) (name : Path)
    : (directory.join name).isAbsolute = true := by
  obtain ⟨tail, rfl⟩ := (isAbsolute_iff directory).mp absolute
  unfold join
  split
  case isTrue right => exact right
  case isFalse => split <;> rfl

theorem isAbsolute_of_whole {bytes : Bytes} (whole : slash ∉ bytes)
    : (⟨bytes⟩ : Path).isAbsolute = false := by
  rw [← Bool.not_eq_true, isAbsolute_iff]
  rintro ⟨rest, same⟩
  obtain rfl := Path.mk.inj same
  exact whole List.mem_cons_self

/-- A piece that is joined to an absolute path is read behind it. -/
theorem components_join {directory : Path} (absolute : directory.isAbsolute = true)
    {bytes : Bytes} (whole : slash ∉ bytes)
    : (directory.join ⟨bytes⟩).components
      = directory.components ++ (component? bytes).toList := by
  obtain ⟨tail, rfl⟩ := (isAbsolute_iff directory).mp absolute
  have single : (bytes.splitOn slash).filterMap component? = (component? bytes).toList := by
    rw [List.splitOn_eq_singleton whole, List.filterMap_cons]
    cases component? bytes <;> rfl
  unfold join
  rw [isAbsolute_of_whole whole, if_neg (by decide)]
  split
  case isTrue ends =>
    rw [List.cons_append, components_absolute, components_absolute, List.cons_append]
    refine congrArg (Component.root :: ·) ?_
    rcases List.eq_nil_or_concat tail with rfl | ⟨front, last, rfl⟩
    · exact single
    · obtain rfl : last = slash := by
        simpa [List.getLast?_cons] using ends
      rw [List.concat_eq_append, List.append_assoc, List.singleton_append,
        List.splitOn_append_cons_self, List.splitOn_append_cons_self, List.filterMap_append,
        List.filterMap_append, single, List.splitOn_nil]
      exact congrArg (· ++ _) (List.append_nil _).symm
  case isFalse =>
    rw [List.cons_append, components_absolute, components_absolute, List.cons_append,
      List.splitOn_append_cons_self, List.filterMap_append, single]

theorem prefix_join (directory : Path) {bytes : Bytes} (whole : slash ∉ bytes)
    : directory.bytes <+: (directory.join ⟨bytes⟩).bytes := by
  unfold join
  rw [isAbsolute_of_whole whole, if_neg (by decide)]
  split <;> exact List.prefix_append _ _

/-- The pieces of a joined path are those of the directory, without an empty one at its end, and the
one that is joined.
-/
theorem exists_splitOn_join (directory : Path) {bytes : Bytes} (whole : slash ∉ bytes)
    : ∃ front, (directory.join ⟨bytes⟩).bytes.splitOn slash = front ++ [bytes]
        ∧ (directory.bytes.splitOn slash = front
          ∨ directory.bytes.splitOn slash = front ++ [[]]) := by
  have behind (front : Bytes)
      : (front ++ slash :: bytes).splitOn slash = front.splitOn slash ++ [bytes] := by
    rw [List.splitOn_append_cons_self, List.splitOn_eq_singleton whole]
  unfold join
  rw [isAbsolute_of_whole whole, if_neg (by decide)]
  split
  case isTrue ends =>
    rcases ends with empty | ends
    · refine ⟨[], ?_, .inr ?_⟩
      · rw [empty, List.nil_append, List.splitOn_eq_singleton whole, List.nil_append]
      · rw [empty, List.splitOn_nil, List.nil_append]
    · obtain ⟨front, split⟩ := List.getLast?_eq_some_iff.mp ends
      refine ⟨front.splitOn slash, ?_, .inr ?_⟩
      · rw [split, List.append_assoc, List.singleton_append, behind]
      · rw [split, List.splitOn_append_cons_self, List.splitOn_nil]
  case isFalse => exact ⟨directory.bytes.splitOn slash, behind directory.bytes, .inl rfl⟩

/-- A joined piece is the last one. -/
theorem getLast?_splitOn_join (directory : Path) {bytes : Bytes} (whole : slash ∉ bytes)
    : ((directory.join ⟨bytes⟩).bytes.splitOn slash).getLast? = some bytes := by
  obtain ⟨front, split, -⟩ := exists_splitOn_join directory whole
  rw [split, List.getLast?_concat]

/-- A piece that is joined leaves a relative path relative. -/
theorem isAbsolute_join_relative {directory : Path} (relative : directory.isAbsolute = false)
    {bytes : Bytes} (whole : slash ∉ bytes)
    : (directory.join ⟨bytes⟩).isAbsolute = false := by
  have alone : (⟨bytes⟩ : Path).isAbsolute = false := isAbsolute_of_whole whole
  unfold join
  rw [alone, if_neg (by decide)]
  obtain ⟨first | ⟨first, rest⟩⟩ := directory
  · exact alone
  · split <;> exact relative

/-- A name that is joined to a path is read as its last component, whatever the path starts with. -/
theorem components_join_name (directory : Path) {bytes : Bytes} (proper : IsName bytes)
    : (directory.join ⟨bytes⟩).components = directory.components ++ [.name bytes] := by
  have whole : slash ∉ bytes := (not_mem_piece proper).1
  have read : component? bytes = some (.name bytes) := component?_piece proper
  have notHere : bytes ≠ [dot] := by
    cases proper with
    | name _ _ named => exact named.1
  -- an empty piece stands for nothing
  have behind {front pieces : List Bytes} (parted : pieces = front ∨ pieces = front ++ [[]])
      : (front ++ [bytes]).filterMap component?
        = pieces.filterMap component? ++ [.name bytes] := by
    rw [List.filterMap_append, List.filterMap_cons, read]
    rcases parted with rfl | rfl
    · rfl
    · rw [List.filterMap_append]
      exact congrArg (· ++ _) (List.append_nil _).symm
  obtain ⟨front, joined, parted⟩ := exists_splitOn_join directory whole
  rcases directory.absolute_or_here_or_plain with ⟨tail, rfl⟩ | ⟨later, cut⟩ | ⟨relative, plain⟩
  · rw [components_join rfl whole, read]
    rfl
  · rw [cut] at parted
    cases front with
    | nil => rcases parted with none | none <;> cases none
    | cons first more =>
        obtain ⟨rfl, same⟩ : [dot] = first ∧ (later = more ∨ later = more ++ [[]]) := by
          simpa [← and_or_left] using parted
        rw [components_here cut, components_here joined]
        exact congrArg (Component.here :: ·) (behind same)
  · have plain' : ((directory.join ⟨bytes⟩).bytes.splitOn slash).head? ≠ some [dot] := by
      rw [joined]
      cases front with
      | nil => exact fun same => notHere (Option.some.inj same)
      | cons first more =>
          rcases parted with parted | parted <;> rw [parted] at plain <;> exact plain
    rw [components_plain (isAbsolute_join_relative relative whole) plain',
      components_plain relative plain, joined, behind parted]

/-- Absolute paths that are read alike have the same bytes, but for slashes and dots. -/
theorem mem_bytes_congr {first second : Path} (left : first.isAbsolute = true)
    (right : second.isAbsolute = true) (same : first.components = second.components)
    {byte : UInt8} (notSlash : byte ≠ slash) (notDot : byte ≠ dot)
    : byte ∈ first.bytes ↔ byte ∈ second.bytes := by
  obtain ⟨front, rfl⟩ := (isAbsolute_iff first).mp left
  obtain ⟨back, rfl⟩ := (isAbsolute_iff second).mp right
  rw [components_absolute, components_absolute] at same
  rw [mem_iff_mem_name notSlash notDot, mem_iff_mem_name notSlash notDot,
    (List.cons.inj same).2]

theorem getLast?_filterMap_component? {pieces : List Bytes} {bytes : Bytes}
    (proper : IsName bytes) (last : pieces.getLast? = some bytes)
    : (pieces.filterMap component?).getLast? = some (.name bytes) := by
  obtain ⟨front, rfl⟩ := List.getLast?_eq_some_iff.mp last
  have read : component? bytes = some (.name bytes) := component?_piece proper
  rw [List.filterMap_append, List.filterMap_cons, read]
  exact List.getLast?_concat

/-- A path ends in the name that is its last piece, whatever it starts with. -/
theorem fileName?_of_getLast? {path : Path} {bytes : Bytes} (proper : IsName bytes)
    (last : (path.bytes.splitOn slash).getLast? = some bytes)
    : path.fileName? = some bytes := by
  suffices path.components.getLast? = some (.name bytes) by rw [fileName?, this]
  have different : some [dot] ≠ some bytes := by
    cases proper with
    | name _ _ named => exact fun same => named.1 (Option.some.inj same).symm
  rcases path.absolute_or_here_or_plain with ⟨tail, rfl⟩ | ⟨later, cut⟩ | ⟨relative, plain⟩
  · rw [← List.nil_append (slash :: tail), List.splitOn_append_cons_self,
      List.getLast?_append_of_ne_nil _ (List.splitOn_ne_nil _ _)] at last
    rw [components_absolute, List.getLast?_cons, getLast?_filterMap_component? proper last]
    rfl
  · rw [cut] at last
    rw [components_here cut]
    cases later with
    | nil => exact absurd last different
    | cons piece more =>
        rw [List.getLast?_cons_cons] at last
        rw [List.getLast?_cons, getLast?_filterMap_component? proper last]
        rfl
  · rw [components_plain relative plain, getLast?_filterMap_component? proper last]

end Path

-----------------------------------------------------------------------------------------
-- Texts as bytes
-----------------------------------------------------------------------------------------

namespace Bytes

theorem ofText_of_toText? {bytes : Bytes} {text : String} (read : toText? bytes = some text)
    : ofText text = bytes := by
  unfold toText? String.fromUTF8? at read
  split at read
  · obtain rfl := Option.some.inj read
    rfl
  · cases read

/-- A byte of ASCII stands only for its own character. -/
theorem encode_of_mem_ascii {char : Char} {byte : UInt8} (ascii : byte.toNat < 0x80)
    (member : byte ∈ String.utf8EncodeChar char)
    : char.toNat = byte.toNat ∧ String.utf8EncodeChar char = [byte] := by
  by_cases wide : 128 ≤ char.val.toNat
  · exact absurd (le_of_mem_utf8EncodeChar wide member) (Nat.not_le.mpr ascii)
  · have single : String.utf8EncodeChar char = [char.val.toNat.toUInt8] := by
      rw [String.utf8EncodeChar, if_pos (by omega)]
    rw [single] at member ⊢
    obtain rfl := List.mem_singleton.mp member
    refine ⟨?_, rfl⟩
    rw [Nat.toUInt8, UInt8.toNat_ofNat']
    change char.val.toNat = char.val.toNat % 256
    omega

theorem mem_utf8EncodeChar {char : Char} (member : slash ∈ String.utf8EncodeChar char)
    : char = '/' :=
  Char.toNat_inj.mp (encode_of_mem_ascii (by decide) member).1

/-- The byte of a character of ASCII is among those of a text just if the character is. -/
theorem mem_ofText_iff {text : List Char} {char : Char} (ascii : char.toNat < 0x80)
    : char.toNat.toUInt8 ∈ ofText (String.ofList text) ↔ char ∈ text := by
  have own : char.toNat.toUInt8.toNat = char.toNat := by
    rw [Nat.toUInt8, UInt8.toNat_ofNat']
    omega
  rw [ofText_ofList, List.mem_flatMap]
  constructor
  · rintro ⟨other, member, inside⟩
    have same := (encode_of_mem_ascii (own.trans_lt ascii) inside).1
    exact Char.toNat_inj.mp (same.trans own) ▸ member
  · intro member
    refine ⟨char, member, ?_⟩
    rw [String.utf8EncodeChar, if_pos (show char.val.toNat ≤ 127 from Nat.le_of_lt_succ ascii)]
    exact List.mem_singleton_self _

/-- So it is behind the first byte just if the character is behind the first one. -/
theorem mem_tail_ofText_iff {text : List Char} {char : Char} (ascii : char.toNat < 0x80)
    : char.toNat.toUInt8 ∈ (ofText (String.ofList text)).tail ↔ char ∈ text.tail := by
  cases text with
  | nil => exact iff_of_false List.not_mem_nil List.not_mem_nil
  | cons first rest =>
      have own : char.toNat.toUInt8.toNat < 0x80 := by
        rw [Nat.toUInt8, UInt8.toNat_ofNat']
        omega
      rw [List.tail_cons, ← mem_ofText_iff ascii, ofText_ofList, ofText_ofList,
        List.flatMap_cons]
      cases encoded : String.utf8EncodeChar first with
      | nil => exact absurd encoded String.utf8EncodeChar_ne_nil
      | cons byte more =>
          rw [List.cons_append, List.tail_cons, List.mem_append, or_iff_right]
          -- a byte of ASCII is the only one of its character
          intro inside
          have single := (encode_of_mem_ascii own (encoded ▸ List.mem_cons_of_mem byte inside)).2
          rw [(List.cons.inj (encoded.symm.trans single)).2] at inside
          cases inside

theorem not_mem_ofText {text : List Char} (whole : '/' ∉ text)
    : slash ∉ ofText (String.ofList text) :=
  fun member => whole ((mem_ofText_iff (by decide)).mp member)

/-- The bytes of a text are cut at the same slashes as its characters. -/
theorem splitOn_ofText (text : List Char)
    : (ofText (String.ofList text)).splitOn slash
      = (text.splitOn '/').map fun piece => ofText (String.ofList piece) := by
  have cut := @Text.splitOn_flatMap _ _ _ _ String.utf8EncodeChar '/' slash rfl
    (fun _ different member => different (mem_utf8EncodeChar member)) text
  rw [ofText_ofList, cut]
  simp only [ofText_ofList]

end Bytes

-----------------------------------------------------------------------------------------
-- Searches
-----------------------------------------------------------------------------------------

namespace Inventory

theorem within_eq_join {directory : Path} (absolute : directory.isAbsolute = true)
    (name : Bytes)
    : within directory name = directory.join ⟨name⟩ := by
  unfold within
  rw [if_neg]
  rintro rfl
  cases absolute

/-- A child that fits an escaped text has it as its name. -/
theorem child_eq {tree : FileTree} (named : tree.Named) {directory child : Path}
    (absolute : directory.isAbsolute = true) (member : child ∈ Wildcard.children tree directory)
    {text : List Char} (fitting : fitsPath (text.map tokenOf) child = true)
    : child = within directory (Bytes.ofText (String.ofList text)) := by
  unfold Wildcard.children at member
  split at member
  case h_2 => cases member
  case h_1 place _ =>
    obtain ⟨bytes, among, rfl⟩ := List.mem_map.mp member
    have name := named.names among
    have read : (within directory bytes).components = directory.components ++ [.name bytes] := by
      cases name with
      | name whole given plain =>
          rw [within_eq_join absolute, Path.components_join absolute whole]
          simp [component?, given, plain.1, plain.2]
    unfold fitsPath at fitting
    rw [Path.fileName?_of_components read] at fitting
    dsimp only [Option.bind_some] at fitting
    split at fitting
    case h_1 found decoded =>
      have same := (Wildcard.fits_escape text found.toList).mp fitting
      rw [← same, String.ofList_toList, Bytes.ofText_of_toText? decoded]
    case h_2 => cases fitting

/-- The path that texts lead to from another one, piece by piece. -/
def spelled (start : Path) (texts : List (List Char)) : Path :=
  texts.foldl (fun path text => path.join ⟨Bytes.ofText (String.ofList text)⟩) start

/-- Escaped texts lead to one path only, by induction on them. -/
theorem eq_spelled_of_below {tree : FileTree} (named : tree.Named) {texts : List (List Char)}
    {start path : Path} (absolute : start.isAbsolute = true)
    (found : path ∈ below tree (texts.map fun text => .name (text.map tokenOf)) start)
    : path = spelled start texts := by
  induction texts generalizing start with
  | nil => exact List.mem_singleton.mp (show path ∈ [start] by simpa [below] using found)
  | cons text rest ih =>
      have onward (inside : path ∈ below tree (rest.map fun text => .name (text.map tokenOf))
          (within start (Bytes.ofText (String.ofList text))))
          : path = spelled start (text :: rest) := by
        rw [within_eq_join absolute] at inside
        exact ih (Path.isAbsolute_join absolute _) inside
      rw [List.map_cons, below] at found
      split at found
      case h_1 name literal =>
        split at found
        · exact onward (Wildcard.literal?_escape literal ▸ found)
        · cases found
      case h_2 =>
        obtain ⟨child, among, inside⟩ := List.mem_flatMap.mp found
        split at inside
        case isTrue fitting => exact onward (child_eq named absolute among fitting ▸ inside)
        case isFalse => cases inside

/-- What texts lead to is read piece by piece behind the start, by induction on them. -/
theorem components_spelled {texts : List (List Char)} (whole : ∀ text ∈ texts, '/' ∉ text)
    {start : Path} (absolute : start.isAbsolute = true)
    : (spelled start texts).isAbsolute = true
      ∧ (spelled start texts).components = start.components
        ++ (texts.map fun text => Bytes.ofText (String.ofList text)).filterMap component? := by
  induction texts generalizing start with
  | nil => exact ⟨absolute, (List.append_nil _).symm⟩
  | cons text rest ih =>
      rw [List.forall_mem_cons] at whole
      obtain ⟨still, components⟩ := ih whole.2
        (Path.isAbsolute_join absolute ⟨Bytes.ofText (String.ofList text)⟩)
      refine ⟨still, components.trans ?_⟩
      rw [Path.components_join absolute (Bytes.not_mem_ofText whole.1), List.append_assoc,
        List.map_cons, List.filterMap_cons]
      cases component? (Bytes.ofText (String.ofList text)) <;> rfl

theorem components_of_below {tree : FileTree} (named : tree.Named) {texts : List (List Char)}
    (whole : ∀ text ∈ texts, '/' ∉ text) {start path : Path} (absolute : start.isAbsolute = true)
    (found : path ∈ below tree (texts.map fun text => .name (text.map tokenOf)) start)
    : path.isAbsolute = true
      ∧ path.components = start.components
        ++ (texts.map fun text => Bytes.ofText (String.ofList text)).filterMap component? :=
  eq_spelled_of_below named absolute found ▸ components_spelled whole absolute

theorem exists_toList {text : String} {tail : Bytes} (bytes : Bytes.ofText text = slash :: tail)
    : ∃ rest, text.toList = '/' :: rest ∧ Bytes.ofText (String.ofList rest) = tail := by
  rw [← String.ofList_toList (s := text), Bytes.ofText_ofList] at bytes
  cases split : text.toList with
  | nil =>
      rw [split] at bytes
      cases bytes
  | cons char rest =>
      rw [split, List.flatMap_cons] at bytes
      have first : char = '/' := by
        refine Bytes.mem_utf8EncodeChar ?_
        cases encoded : String.utf8EncodeChar char with
        | nil => exact absurd encoded String.utf8EncodeChar_ne_nil
        | cons byte more =>
            rw [encoded] at bytes
            rw [(List.cons.inj bytes).1]
            exact List.mem_cons_self
      subst first
      exact ⟨rest, rfl, (Bytes.ofText_ofList rest).trans (List.cons.inj bytes).2⟩

/-- A text that is not empty, has no slash, and is neither of the dots is a name. -/
theorem isName_ofText {name : String} (given : name ≠ "") (whole : '/' ∉ name.toList)
    (proper : name ≠ "." ∧ name ≠ "..")
    : IsName (Bytes.ofText name) := by
  refine .name ?_ ?_ ⟨?_, ?_⟩
  · rw [← String.ofList_toList (s := name)]
    exact Bytes.not_mem_ofText whole
  · exact fun empty => given (Bytes.ofText_injective empty)
  · exact fun dot => proper.1 (Bytes.ofText_injective dot)
  · exact fun dots => proper.2 (Bytes.ofText_injective dots)

theorem toList_of_isName {name : String} (proper : IsName (Bytes.ofText name))
    : name.toList ≠ [] ∧ '/' ∉ name.toList := by
  cases proper with
  | name whole given =>
      rw [← String.ofList_toList (s := name)] at given whole
      refine ⟨fun empty => given (empty ▸ rfl), fun inside => whole ?_⟩
      rw [Bytes.ofText_ofList]
      exact List.mem_flatMap.mpr ⟨'/', inside, List.mem_cons_self⟩

/-- The pieces that lead to a name under an absolute root. -/
def piecesTo (rest : List Char) (name : String) : List (List Char) :=
  rest.splitOn '/' ++ [name.toList]

/-- A search for an escaped name under an escaped root goes along their pieces. -/
theorem search_escaped (tree : FileTree) (rest : List Char) {name : String}
    (given : name.toList ≠ []) (whole : '/' ∉ name.toList)
    : Wildcard.search tree
        (Wildcard.Pattern.escape ('/' :: rest) ++ '/' :: Wildcard.Pattern.escape name.toList)
      = .ok (below tree ((piecesTo rest name).map fun text => .name (text.map tokenOf))
          (Path.ofText "/")) := by
  have together
      : Wildcard.Pattern.escape ('/' :: rest) ++ '/' :: Wildcard.Pattern.escape name.toList
        = '/' :: Wildcard.Pattern.escape (rest ++ '/' :: name.toList) := by
    simp [Wildcard.Pattern.escape, Wildcard.Pattern.escapeChar]
  have cut : (rest ++ '/' :: name.toList).splitOn '/' = piecesTo rest name := by
    rw [List.splitOn_append_cons_self, List.splitOn_eq_singleton whole, piecesTo]
  have read : Wildcard.readPatterns
      (Wildcard.components (Wildcard.Pattern.escape (rest ++ '/' :: name.toList)))
      = .ok ((piecesTo rest name).map fun text => .name (text.map tokenOf)) := by
    rw [Wildcard.components_escape, Wildcard.readPatterns_escape, cut]
    rw [cut, piecesTo, List.getLast?_concat]
    simpa using given
  have last
      : ('/' :: Wildcard.Pattern.escape (rest ++ '/' :: name.toList)).getLast? ≠ some '/' := by
    rw [← together, List.getLast?_append_of_ne_nil _ (List.cons_ne_nil _ _)]
    intro ends
    refine Wildcard.not_mem_escape whole ?_
    cases escaped : Wildcard.Pattern.escape name.toList with
    | nil => exact absurd (Wildcard.escape_eq_nil escaped) given
    | cons char more =>
        rw [escaped, List.getLast?_cons_cons] at ends
        exact List.mem_of_getLast? ends
  rw [together, Wildcard.search_of_read read (by simp [piecesTo]), if_neg last]

/-- A search for everything below an escaped root goes along its pieces, and then to any depth. -/
theorem search_all (tree : FileTree) (rest : List Char)
    : Wildcard.search tree (Wildcard.Pattern.escape ('/' :: rest) ++ ['/', '*', '*', '/', '*'])
      = .ok (below tree ((rest.splitOn '/').map (fun text => .name (text.map tokenOf))
          ++ [.anyDepth, .name [.anyText]]) (Path.ofText "/")) := by
  have together : Wildcard.Pattern.escape ('/' :: rest) ++ ['/', '*', '*', '/', '*']
      = '/' :: (Wildcard.Pattern.escape rest ++ '/' :: ['*', '*', '/', '*']) := rfl
  have pieces : Wildcard.components (Wildcard.Pattern.escape rest ++ '/' :: ['*', '*', '/', '*'])
      = (rest.splitOn '/').map Wildcard.Pattern.escape ++ [['*', '*'], ['*']] := by
    have cut : (['*', '*', '/', '*'] : List Char).splitOn '/' = [['*', '*'], ['*']] := by decide
    have cut := (Text.pieces_eq_splitOn '/'
      (Wildcard.Pattern.escape rest ++ '/' :: ['*', '*', '/', '*'])).trans
        (by rw [List.splitOn_append_cons_self, Wildcard.splitOn_escape, cut])
    unfold Wildcard.components
    dsimp only
    rw [cut, if_neg (by simp)]
  have read : Wildcard.readPatterns
      (Wildcard.components (Wildcard.Pattern.escape rest ++ '/' :: ['*', '*', '/', '*']))
      = .ok ((rest.splitOn '/').map (fun text => .name (text.map tokenOf))
        ++ [.anyDepth, .name [.anyText]]) := by
    rw [pieces]
    exact Wildcard.readPatterns_append (Wildcard.readPatterns_escape _) rfl
  rw [together, Wildcard.search_of_read read (by simp), if_neg]
  rw [← together, List.getLast?_append_of_ne_nil _ (List.cons_ne_nil _ _)]
  decide

/-- An absolute root that is text is a pattern for itself. -/
theorem literalRoot_eq_ok {root : Path} (absolute : root.isAbsolute = true) {pattern : List Char}
    (literal : literalRoot root = .ok pattern)
    : ∃ rest, pattern = Wildcard.Pattern.escape ('/' :: rest)
        ∧ root.bytes = slash :: Bytes.ofText (String.ofList rest) := by
  obtain ⟨tail, rfl⟩ := (Path.isAbsolute_iff root).mp absolute
  unfold literalRoot at literal
  split at literal
  case h_2 => cases literal
  case h_1 text decoded =>
    obtain rfl := Except.ok.inj literal
    obtain ⟨rest, chars, bytes⟩ := exists_toList (Bytes.ofText_of_toText? decoded)
    exact ⟨rest, congrArg _ chars, congrArg (slash :: ·) bytes.symm⟩

theorem literalRoot_ofText (rest : List Char)
    : literalRoot (Path.ofText (String.ofList ('/' :: rest)))
      = .ok (Wildcard.Pattern.escape ('/' :: rest)) := by
  simp only [literalRoot, Path.ofText, Bytes.toText?_ofText, String.toList_ofList]

theorem mem_filesFitting {tree : FileTree} {pattern : List Char} {found : List Path}
    (fits : filesFitting tree pattern = .ok found)
    : ∃ fitting, Wildcard.search tree pattern = .ok fitting
        ∧ ∀ path ∈ found, path ∈ fitting ∧ tree.isFile path = true := by
  unfold filesFitting at fits
  split at fits
  case h_2 => cases fits
  case h_1 fitting searched =>
    obtain rfl := Except.ok.inj fits
    exact ⟨fitting, searched, fun _ => List.mem_filter.mp⟩

/-- All files to which the pieces of the root and the name lead are found. -/
theorem find_eq (tree : FileTree) (rest : List Char) {name : String}
    (given : name.toList ≠ []) (whole : '/' ∉ name.toList)
    : find tree (Path.ofText (String.ofList ('/' :: rest))) name
      = .ok ((below tree ((piecesTo rest name).map fun text => .name (text.map tokenOf))
          (Path.ofText "/")).filter tree.isFile) := by
  simp only [find, literalRoot_ofText, filesFitting, search_escaped tree rest given whole]

/-- What is found under an absolute root is a file to which the pieces of the root and the name
lead.
-/
theorem mem_below_of_find {tree : FileTree} {root : Path} (absolute : root.isAbsolute = true)
    {name : String} (given : name.toList ≠ []) (whole : '/' ∉ name.toList) {found : List Path}
    (finds : find tree root name = .ok found) {path : Path} (member : path ∈ found)
    : tree.isFile path = true
      ∧ ∃ rest, root.bytes = slash :: Bytes.ofText (String.ofList rest)
        ∧ path ∈ below tree ((piecesTo rest name).map fun text => .name (text.map tokenOf))
          (Path.ofText "/") := by
  unfold find at finds
  split at finds
  case h_2 => cases finds
  case h_1 pattern literal =>
    obtain ⟨rest, rfl, bytes⟩ := literalRoot_eq_ok absolute literal
    obtain ⟨fitting, searched, files⟩ := mem_filesFitting finds
    obtain ⟨among, file⟩ := files path member
    rw [search_escaped tree rest given whole] at searched
    exact ⟨file, rest, bytes, Except.ok.inj searched ▸ among⟩

/-- What is found under an absolute root for one piece is a file, and its path is read as the path
of the piece in the root.
-/
theorem components_of_find {tree : FileTree} (named : tree.Named) {root : Path}
    (absolute : root.isAbsolute = true) {name : String} (given : name.toList ≠ [])
    (whole : '/' ∉ name.toList) {found : List Path} (finds : find tree root name = .ok found)
    {path : Path} (member : path ∈ found)
    : tree.isFile path = true
      ∧ path.isAbsolute = true
      ∧ path.components = root.components ++ (component? (Bytes.ofText name)).toList := by
  obtain ⟨file, rest, bytes, among⟩ := mem_below_of_find absolute given whole finds member
  have pieces : ∀ text ∈ piecesTo rest name, '/' ∉ text :=
    List.forall_mem_append.mpr ⟨fun _ => Text.not_mem_of_mem_splitOn,
      List.forall_mem_singleton.mpr whole⟩
  obtain ⟨still, components⟩ := components_of_below named pieces rfl among
  refine ⟨file, still, ?_⟩
  have read : root.components = [.root] ++ (rest.splitOn '/').filterMap fun text =>
      component? (Bytes.ofText (String.ofList text)) := by
    rw [show root = ⟨slash :: Bytes.ofText (String.ofList rest)⟩ from congrArg Path.mk bytes,
      Path.components_absolute, Bytes.splitOn_ofText, List.filterMap_map]
    rfl
  have last : [Bytes.ofText name].filterMap component?
      = (component? (Bytes.ofText name)).toList := by
    rw [List.filterMap_cons]
    cases component? (Bytes.ofText name) <;> rfl
  rw [components, read, piecesTo, List.map_append, List.filterMap_append, List.filterMap_map,
    List.map_singleton, String.ofList_toList, last, List.append_assoc]
  rfl

/-- What is found under an absolute root is a file, and its path is read as the path of the name
in the root.
-/
theorem find_spec {tree : FileTree} (named : tree.Named) {root : Path}
    (absolute : root.isAbsolute = true) {name : String} (proper : IsName (Bytes.ofText name))
    {found : List Path} (finds : find tree root name = .ok found) {path : Path}
    (member : path ∈ found)
    : tree.isFile path = true
      ∧ path.isAbsolute = true
      ∧ path.components = root.components ++ [.name (Bytes.ofText name)] := by
  obtain ⟨given, whole⟩ := toList_of_isName proper
  have last : component? (Bytes.ofText name) = some (.name (Bytes.ofText name)) :=
    Path.component?_piece proper
  obtain ⟨file, still, read⟩ := components_of_find named absolute given whole finds member
  exact ⟨file, still, by rw [read, last]; rfl⟩

theorem fileName?_within (directory : Path) {bytes : Bytes} (proper : IsName bytes)
    : (within directory bytes).fileName? = some bytes := by
  have whole : slash ∉ bytes := (Path.not_mem_piece proper).1
  refine Path.fileName?_of_getLast? proper ?_
  unfold within
  split
  · exact congrArg List.getLast? (List.splitOn_eq_singleton whole)
  · exact Path.getLast?_splitOn_join directory whole

/-- A path that fits an escaped name ends in it. -/
theorem fileName?_of_fitsPath {path : Path} {name : String}
    (fitting : fitsPath (name.toList.map tokenOf) path = true)
    : path.fileName? = some (Bytes.ofText name) := by
  unfold fitsPath at fitting
  split at fitting
  case h_2 => cases fitting
  case h_1 written decoded =>
    obtain ⟨bytes, named, read⟩ := Option.bind_eq_some_iff.mp decoded
    have same := (Wildcard.fits_escape _ _).mp fitting
    rw [named, ← Bytes.ofText_of_toText? read, ← String.ofList_toList (s := written), same,
      String.ofList_toList]

/-- Where patterns lead that end in an escaped name is a path that ends in it, by induction on the
patterns.
-/
theorem fileName?_of_below {tree : FileTree} {texts : List (List Char)} {name : String}
    (proper : IsName (Bytes.ofText name)) (last : texts.getLast? = some name.toList)
    {start path : Path}
    (found : path ∈ below tree (texts.map fun text => .name (text.map tokenOf)) start)
    : path.fileName? = some (Bytes.ofText name) := by
  induction texts generalizing start with
  | nil => cases last
  | cons text rest ih =>
      rw [List.map_cons, below] at found
      cases rest with
      | nil =>
          obtain rfl : text = name.toList := Option.some.inj last
          split at found
          case h_1 literal read =>
            split at found
            case isTrue =>
              obtain rfl := Wildcard.literal?_escape read
              rw [List.map_nil, below, List.mem_singleton, String.ofList_toList] at found
              exact found ▸ fileName?_within start proper
            case isFalse => cases found
          case h_2 =>
            obtain ⟨child, -, inside⟩ := List.mem_flatMap.mp found
            split at inside
            case isFalse => cases inside
            case isTrue fitting =>
              have single : path ∈ [child] := by simpa [below] using inside
              exact List.mem_singleton.mp single ▸ fileName?_of_fitsPath fitting
      | cons other more =>
          rw [List.getLast?_cons_cons] at last
          split at found
          · split at found
            · exact ih last found
            · cases found
          · obtain ⟨child, -, inside⟩ := List.mem_flatMap.mp found
            split at inside
            · exact ih last inside
            · cases inside

/-- Whatever a search for a name finds ends in the name, however the root is written. -/
theorem fileName?_of_find {tree : FileTree} {root : Path} {name : String}
    (proper : IsName (Bytes.ofText name)) {found : List Path}
    (finds : find tree root name = .ok found) {path : Path} (member : path ∈ found)
    : path.fileName? = some (Bytes.ofText name) := by
  obtain ⟨given, whole⟩ := toList_of_isName proper
  unfold find literalRoot at finds
  split at finds
  case h_2 => cases finds
  case h_1 pattern literal =>
    split at literal
    case h_2 => cases literal
    case h_1 text decoded =>
      obtain rfl := Except.ok.inj literal
      obtain ⟨fitting, searched, files⟩ := mem_filesFitting finds
      have together
          : Wildcard.Pattern.escape text.toList ++ '/' :: Wildcard.Pattern.escape name.toList
            = Wildcard.Pattern.escape (text.toList ++ '/' :: name.toList) := by
        simp [Wildcard.Pattern.escape, Wildcard.Pattern.escapeChar]
      have last : ((text.toList ++ '/' :: name.toList).splitOn '/').getLast?
          = some name.toList := by
        rw [List.splitOn_append_cons_self, List.splitOn_eq_singleton whole, List.getLast?_concat]
      rw [together] at searched
      obtain ⟨texts, start, ends, among⟩ :=
        Wildcard.exists_below_of_search last given searched (files path member).1
      exact fileName?_of_below proper ends among

end Inventory

-----------------------------------------------------------------------------------------
-- Files under other spellings
-----------------------------------------------------------------------------------------

namespace FileTree

variable {tree : FileTree} {root path : Path} {name : String}

theorem components_child (root : Path) (proper : IsName (Bytes.ofText name))
    : (root.child name).components = root.components ++ [.name (Bytes.ofText name)] :=
  Path.components_join_name root proper

theorem spot_of_isFile (file : tree.isFile path = true)
    : ∃ place content, tree.locate true path = .ok ⟨place, some (.file content)⟩ := by
  unfold isFile target? at file
  cases reached : tree.locate true path with
  | error reason =>
      rw [reached] at file
      cases file
  | ok spot =>
      obtain ⟨place, entry⟩ := spot
      rw [reached] at file
      cases entry with
      | none => cases file
      | some entry =>
          cases entry with
          | file content => exact ⟨place, content, rfl⟩
          | directory => cases file
          | link target => cases file

/-- A path that is longer than the system takes leads nowhere. -/
theorem isPresent_of_long (long : pathLimit < path.bytes.length) : tree.isPresent path = false := by
  have fails : ∃ reason, tree.locate true path = .error reason := by
    rw [locate, locateBy, if_pos long]
    split
    · exact ⟨_, rfl⟩
    · split <;> exact ⟨_, rfl⟩
  obtain ⟨reason, failed⟩ := fails
  simp [isPresent, target?, failed]

theorem isPresent_of_isFile (file : tree.isFile path = true) : tree.isPresent path = true := by
  unfold isFile at file
  unfold isPresent
  cases reached : tree.target? path with
  | none =>
      rw [reached] at file
      cases file
  | some entry => rfl

/-- A file is found by every path that is read as the same components and ends in a name, unless
that path is longer than the system takes.
-/
theorem isFile_congr {first second : Path} (left : first.isAbsolute = true)
    (right : second.isAbsolute = true) (same : second.components = first.components)
    {bytes : Bytes} (proper : IsName bytes)
    (last : (second.bytes.splitOn slash).getLast? = some bytes)
    (short : second.bytes.length ≤ pathLimit) (file : tree.isFile first = true)
    : tree.isFile second = true := by
  obtain ⟨place, content, reached⟩ := spot_of_isFile file
  obtain ⟨clean, -, -, -⟩ := locateBy_eq_ok_iff.mp reached
  have walks := walks_of_locate reached
  have moves : Step.moves first.steps = Step.moves second.steps := by
    rw [Path.moves_steps, Path.moves_steps, same]
  have ends : second.steps.getLast? ≠ some .stay := by
    rw [Path.steps_eq_map, List.getLast?_map, last]
    cases proper with
    | name _ given named => simp [Step.ofPiece, given, named.1, named.2]
  have again := walks.of_moves moves (.inr ⟨walks.last_ne_stay (by simp), ends⟩)
  have found : tree.locate true second = .ok ⟨place, some (.file content)⟩ := by
    refine locateBy_eq_ok_iff.mpr ⟨?_, ?_, short, ?_⟩
    · rw [List.contains_eq_mem, decide_eq_false_iff_not] at clean ⊢
      rwa [Path.mem_bytes_congr right left same (by decide) (by decide)]
    · obtain ⟨tail, bytes⟩ := (Path.isAbsolute_iff _).mp right
      rw [bytes]
      exact List.cons_ne_nil slash tail
    · rw [right]
      rw [left] at again
      exact walk_eq_ok_iff.mpr again
  unfold isFile target?
  rw [found]

/-- A file that is read as that of a name under a root is found by the path of the name, unless
that path is longer than the system takes.
-/
theorem isFile_child (rooted : root.isAbsolute = true) (proper : IsName (Bytes.ofText name))
    (absolute : path.isAbsolute = true)
    (read : path.components = root.components ++ [.name (Bytes.ofText name)])
    (short : (root.child name).bytes.length ≤ pathLimit) (file : tree.isFile path = true)
    : tree.isFile (root.child name) = true :=
  isFile_congr absolute (Path.isAbsolute_join rooted _)
    ((components_child root proper).trans read.symm) proper
    (Path.getLast?_splitOn_join root (Path.not_mem_piece proper).1) short file

end FileTree

end RouteDesk
