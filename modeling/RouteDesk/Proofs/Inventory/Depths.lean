import RouteDesk.Proofs.Inventory.Rooted

/-! Directories so deep in a tree that what is in them can hardly be written as a path. Slashes in
front of a path change nothing but its length, yet that of a name in such a directory does not fit
any more if there are a few of them.
-/

namespace RouteDesk

open RouteDesk.Path (slash)
open FileTree (IsName nameLimit pathLimit)

-----------------------------------------------------------------------------------------
-- Slashes in front of a path
-----------------------------------------------------------------------------------------

namespace Path

/-- The path with so many slashes more in front of it. -/
def slashed (count : Nat) (path : Path) : Path :=
  ⟨List.replicate count slash ++ path.bytes⟩

variable {path : Path}

theorem slashed_succ (count : Nat) (path : Path)
    : path.slashed (count + 1) = ⟨slash :: (path.slashed count).bytes⟩ :=
  rfl

theorem length_slashed (count : Nat) (path : Path)
    : (path.slashed count).bytes.length = count + path.bytes.length := by
  rw [slashed, List.length_append, List.length_replicate]

theorem isAbsolute_slashed (absolute : path.isAbsolute = true) (count : Nat)
    : (path.slashed count).isAbsolute = true := by
  cases count with
  | zero => exact absolute
  | succ => rfl

/-- What stands before the first slash is empty. -/
theorem splitOn_slash_cons (tail : Bytes)
    : (slash :: tail).splitOn slash = [] :: tail.splitOn slash := by
  rw [← List.nil_append (slash :: tail), List.splitOn_append_cons_self, List.splitOn_nil]
  rfl

theorem components_slashed (absolute : path.isAbsolute = true) (count : Nat)
    : (path.slashed count).components = path.components := by
  induction count with
  | zero => rfl
  | succ count ih =>
      obtain ⟨tail, same⟩ := (isAbsolute_iff _).mp (isAbsolute_slashed absolute count)
      rw [← ih, slashed_succ, same, components_absolute, components_absolute, splitOn_slash_cons]
      rfl

theorem getLast?_steps_slashed (path : Path) (count : Nat)
    : (path.slashed count).steps.getLast? = path.steps.getLast? := by
  induction count with
  | zero => rfl
  | succ count ih =>
      rw [← ih, slashed_succ, steps_eq_map, steps_eq_map, splitOn_slash_cons, List.map_cons,
        List.getLast?_cons_of_ne_nil (by simp)]

theorem Below.slashed {root : Path} {names : List Bytes} (below : Below root names path)
    (count : Nat)
    : Below root names (path.slashed count) where
  absolute := isAbsolute_slashed below.absolute count
  components := (components_slashed below.absolute count).trans below.components
  ends given := by
    rw [getLast?_steps_slashed]
    exact below.ends given

theorem slashed_join (absolute : path.isAbsolute = true) {name : Bytes} (whole : slash ∉ name)
    (count : Nat)
    : (path.slashed count).join ⟨name⟩ = (path.join ⟨name⟩).slashed count := by
  obtain ⟨tail, rfl⟩ := (isAbsolute_iff path).mp absolute
  have last : (slashed count ⟨slash :: tail⟩).bytes.getLast? = (slash :: tail).getLast? :=
    List.getLast?_append_of_ne_nil _ (List.cons_ne_nil _ _)
  by_cases closed : (slash :: tail).getLast? = some slash
  · rw [join_closed (last.trans closed) whole, join_closed closed whole]
    exact congrArg mk (List.append_assoc _ _ _)
  · have given : (slashed count ⟨slash :: tail⟩).bytes ≠ [] := by simp [slashed]
    rw [join_open given (last ▸ closed) whole, join_open (List.cons_ne_nil _ _) closed whole]
    exact congrArg mk (List.append_assoc _ _ _)

theorem isText_slashed (text : Bytes.IsText path.bytes) (count : Nat)
    : Bytes.IsText (path.slashed count).bytes := by
  refine .append (.of_ascii fun byte member => ?_) text
  rw [List.eq_of_mem_replicate member]
  decide

end Path

-----------------------------------------------------------------------------------------
-- Nested directories
-----------------------------------------------------------------------------------------

namespace FileTree

/-- Directories of one name, each in the one before it. -/
def nested (name : Bytes) : Nat → FileTree
  | 0 => {}
  | levels + 1 => (nested name levels).put (List.replicate (levels + 1) name) .directory

/-- A name of that many letters. -/
def letters (count : Nat) : Bytes :=
  List.replicate count 0x64

theorem eq_of_mem_letters {count : Nat} {byte : UInt8} (member : byte ∈ letters count)
    : byte = 0x64 :=
  List.eq_of_mem_replicate member

theorem isText_letters (count : Nat) : Bytes.IsText (letters count) :=
  .of_ascii fun _ member => eq_of_mem_letters member ▸ by decide

theorem isName_letters (count : Nat)
    : IsName (letters (count + 1)) := by
  have first : (letters (count + 1)).head? = some 0x64 := rfl
  have differs {other : Bytes} (different : other.head? ≠ some 0x64)
      : letters (count + 1) ≠ other := by
    rintro rfl
    exact different first
  exact .name (fun inside => absurd (eq_of_mem_letters inside) (by decide)) (differs (by decide))
    ⟨differs (by decide), differs (by decide)⟩

theorem fits_letters {count : Nat} (short : count ≤ nameLimit)
    : (letters count).length ≤ nameLimit ∧ 0 ∉ letters count :=
  ⟨List.length_replicate.trans_le short,
    fun inside => absurd (eq_of_mem_letters inside) (by decide)⟩

section

variable {name : Bytes} (proper : IsName name) (fits : name.length ≤ nameLimit ∧ 0 ∉ name)

include proper fits

/-- Nothing is in the innermost directory, by induction on those around it. -/
theorem rooted_nested (levels : Nat)
    : (nested name levels).Rooted (Path.ofText "/") []
      ∧ entry? (nested name levels) (List.replicate levels name) = some .directory
      ∧ ∀ last, entry? (nested name levels) (List.replicate levels name ++ [last]) = none := by
  induction levels with
  | zero =>
      refine ⟨rooted_top [] (by decide) (by decide) (by decide), rfl, fun last => ?_⟩
      exact entry?_of_ne (by simp) _
  | succ levels ih =>
      obtain ⟨rooted, directory, absent⟩ := ih
      have next : List.replicate (levels + 1) name = List.replicate levels name ++ [name] :=
        List.replicate_succ'
      have rooted' :=
        @Rooted.put _ _ _ rooted _ _ directory (absent name) proper fits .directory nofun rfl
      refine ⟨?_, entry?_put_self (by simp) _ _, fun last => ?_⟩
      · rw [nested, next]
        exact rooted'
      · rw [nested, entry?_put_of_ne (by simp)]
        by_contra present
        have above := rooted.sound _ _ present
        rw [next, absent] at above
        cases above

variable {levels : Nat} {path : Path}
  (below : Path.Below (Path.ofText "/") (List.replicate levels name) path)
  (text : Bytes.IsText path.bytes) (short : path.bytes.length ≤ pathLimit)

include below text short

/-- The innermost directory is a root, however it is written. -/
theorem rooted_innermost : (nested name levels).Rooted path (List.replicate levels name) := by
  obtain ⟨rooted, directory, -⟩ := rooted_nested proper fits levels
  exact rooted.within below text short directory

/-- It still is when a file is put in it. -/
theorem rooted_innermost_put {last : Bytes} (proper' : IsName last)
    (fits' : last.length ≤ nameLimit ∧ 0 ∉ last)
    : ((nested name levels).put (List.replicate levels name ++ [last]) (.file [])).Rooted path
        (List.replicate levels name) := by
  obtain ⟨rooted, directory, absent⟩ := rooted_nested proper fits levels
  have whole := @Rooted.put _ _ _ rooted _ _ directory (absent last) proper' fits' (.file [])
    nofun rfl
  exact whole.within below text short ((entry?_put_of_ne (by simp) _ _).trans directory)

end

end FileTree

-----------------------------------------------------------------------------------------
-- A directory with little room left
-----------------------------------------------------------------------------------------

namespace Deep

open FileTree (nested letters isName_letters fits_letters)

/-- Sixteen directories of almost the longest name, each in the one before it. -/
def place : Place :=
  List.replicate 16 (letters 254)

/-- The tree with these directories. -/
def tree : FileTree :=
  nested (letters 254) 16

/-- The tree with one file in the innermost directory. -/
def holding (file : Bytes) : FileTree :=
  tree.put (place ++ [file]) (.file [])

/-- The innermost directory. -/
def root : Path :=
  (Path.ofText "/").descend place

/-- The innermost directory, written with a few slashes too many. -/
def wide : Path :=
  root.slashed 14

theorem isName_of_mem_place : ∀ name ∈ place, IsName name :=
  fun _ member => List.eq_of_mem_replicate member ▸ isName_letters 253

theorem isPlain_root : root.IsPlain :=
  Path.IsPlain.top.descend isName_of_mem_place

theorem length_root : root.bytes.length = 4080 := by
  rw [root, Path.length_descend_top isName_of_mem_place (by simp [place]), place,
    List.map_replicate, List.sum_replicate, letters, List.length_replicate]
  rfl

theorem isText_root : Bytes.IsText root.bytes :=
  Path.isText_descend ⟨"/", rfl⟩ fun _ member =>
    List.eq_of_mem_replicate member ▸ FileTree.isText_letters 254

theorem below_root : Path.Below (Path.ofText "/") place root :=
  Path.below_descend rfl isName_of_mem_place

/-- However the innermost directory is written, it is a root, be there a file in it or not. -/
theorem rooted_of_below {path : Path} (below : Path.Below (Path.ofText "/") place path)
    (text : Bytes.IsText path.bytes) (short : path.bytes.length ≤ pathLimit)
    : tree.Rooted path place
      ∧ ∀ {file : Bytes}, IsName file → file.length ≤ nameLimit ∧ 0 ∉ file →
        (holding file).Rooted path place :=
  ⟨FileTree.rooted_innermost (isName_letters 253) (fits_letters (by decide)) below text short,
    FileTree.rooted_innermost_put (isName_letters 253) (fits_letters (by decide)) below text short⟩

theorem rooted_root
    : tree.Rooted root place
      ∧ ∀ {file : Bytes}, IsName file → file.length ≤ nameLimit ∧ 0 ∉ file →
        (holding file).Rooted root place :=
  rooted_of_below below_root isText_root (by rw [length_root]; decide)

theorem rooted_wide
    : tree.Rooted wide place
      ∧ ∀ {file : Bytes}, IsName file → file.length ≤ nameLimit ∧ 0 ∉ file →
        (holding file).Rooted wide place :=
  rooted_of_below (below_root.slashed 14) (Path.isText_slashed isText_root 14)
    (by rw [wide, Path.length_slashed, length_root]; decide)

theorem length_join_root {name : Bytes} (whole : slash ∉ name)
    : (root.join ⟨name⟩).bytes.length = 4081 + name.length := by
  have opened : root.bytes.getLast? ≠ some slash := by
    refine (isPlain_root.eq_top_or_pieces.resolve_left fun top => ?_).1
    have long := length_root
    rw [top] at long
    cases long
  rw [Path.length_join isPlain_root.isAbsolute whole, length_root, if_neg opened]
  omega

theorem entry?_place_concat (file : Bytes) : tree.entry? (place ++ [file]) = none :=
  (FileTree.rooted_nested (isName_letters 253) (fits_letters (by decide)) 16).2.2 file

section

variable {name : String} (proper : IsName (Bytes.ofText name))

include proper

theorem child_wide : wide.child name = (root.child name).slashed 14 :=
  Path.slashed_join isPlain_root.isAbsolute proper.whole 14

/-- No name fits behind the longer path. -/
theorem pathLimit_lt_child_wide : pathLimit < (wide.child name).bytes.length := by
  have given := List.length_pos_iff.mpr proper.ne_nil
  rw [child_wide proper, Path.length_slashed]
  change 4095 < 14 + (root.join ⟨Bytes.ofText name⟩).bytes.length
  rw [length_join_root proper.whole]
  omega

/-- A short name fits behind the shorter one. -/
theorem length_child_root_le (few : (Bytes.ofText name).length ≤ 14)
    : (root.child name).bytes.length ≤ pathLimit := by
  change (root.join ⟨Bytes.ofText name⟩).bytes.length ≤ 4095
  rw [length_join_root proper.whole]
  omega

theorem isFile_child_root (fits : (Bytes.ofText name).length ≤ 14 ∧ 0 ∉ Bytes.ofText name)
    : (holding (Bytes.ofText name)).isFile (root.child name) = true := by
  have rooted := rooted_root.2 proper ⟨fits.1.trans (by decide), fits.2⟩
  have below : Path.Below root [Bytes.ofText name] (root.child name) :=
    (Path.Below.self rooted.absolute).join proper
  exact (rooted.isFile_iff below).mpr
    ⟨length_child_root_le proper fits.1, [], FileTree.entry?_put_self (by simp) _ _⟩

end

end Deep

end RouteDesk
