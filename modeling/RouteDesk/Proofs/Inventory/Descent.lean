import RouteDesk.Proofs.Inventory.Plain

/-! Paths of names below a root, however the root is written: what they are read as, which of them
are below which, and how long they are.
-/

namespace RouteDesk

open RouteDesk.Path (slash dot)
open FileTree (IsName)

-----------------------------------------------------------------------------------------
-- Names below a path
-----------------------------------------------------------------------------------------

namespace Path

theorem mem_bytes_iff {path : Path} (absolute : path.isAbsolute = true) {byte : UInt8}
    (notSlash : byte ≠ slash) (notDot : byte ≠ dot)
    : byte ∈ path.bytes ↔ ∃ name, .name name ∈ path.components ∧ byte ∈ name := by
  obtain ⟨tail, rfl⟩ := (isAbsolute_iff path).mp absolute
  rw [components_absolute, mem_iff_mem_name notSlash notDot]
  simp

/-- The path of names in a directory, each in the one before it. -/
def descend (directory : Path) (names : List Bytes) : Path :=
  names.foldl (fun path name => path.join ⟨name⟩) directory

/-- A path that is read as names below a root, and ends with the last of them. -/
structure Below (root : Path) (names : List Bytes) (path : Path) : Prop where
  absolute : path.isAbsolute = true
  components : path.components = root.components ++ names.map .name
  ends : names ≠ [] → path.steps.getLast? ≠ some .stay

theorem descend_append (directory : Path) (front back : List Bytes)
    : directory.descend (front ++ back) = (directory.descend front).descend back :=
  List.foldl_append

theorem descend_concat (directory : Path) (front : List Bytes) (last : Bytes)
    : directory.descend (front ++ [last]) = (directory.descend front).join ⟨last⟩ :=
  descend_append directory front [last]

theorem getLast?_steps_join (directory : Path) {name : Bytes} (proper : IsName name)
    : (directory.join ⟨name⟩).steps.getLast? = some (.into name) := by
  rw [steps_eq_map, List.getLast?_map, getLast?_splitOn_join directory proper.whole]
  cases proper with
  | name _ given named => simp [Step.ofPiece, given, named.1, named.2]

namespace Below

variable {root path : Path} {names : List Bytes}

theorem self (absolute : root.isAbsolute = true) : Below root [] root where
  absolute := absolute
  components := (List.append_nil _).symm
  ends := absurd rfl

theorem join (below : Below root names path) {name : Bytes} (proper : IsName name)
    : Below root (names ++ [name]) (path.join ⟨name⟩) where
  absolute := isAbsolute_join below.absolute _
  components := by
    rw [components_join below.absolute proper.whole, proper.component?_eq, below.components,
      List.map_append, List.append_assoc]
    rfl
  ends _ := by
    rw [getLast?_steps_join path proper]
    nofun

theorem descend (below : Below root names path) {more : List Bytes}
    (proper : ∀ name ∈ more, IsName name)
    : Below root (names ++ more) (path.descend more) := by
  induction more using List.reverseRecOn with
  | nil => exact (List.append_nil names).symm ▸ below
  | append_singleton front last ih =>
      obtain ⟨first, final⟩ := List.forall_mem_append.mp proper
      rw [descend_concat, ← List.append_assoc]
      exact (ih first).join (final last List.mem_cons_self)

theorem trans {inner : Path} {more : List Bytes} (below : Below root names path)
    (below' : Below path more inner) (given : more ≠ [])
    : Below root (names ++ more) inner where
  absolute := below'.absolute
  components := by
    rw [below'.components, below.components, List.map_append, List.append_assoc]
  ends _ := below'.ends given

theorem names_eq {other : Path} {others : List Bytes} (below : Below root names path)
    (below' : Below root others other) (same : path.components = other.components)
    : names = others := by
  rw [below.components, below'.components] at same
  exact List.map_injective_iff.mpr (fun _ _ => Component.name.inj)
    (List.append_cancel_left same)

/-- What stands below a path has its names in front. -/
theorem startsWith_iff {other : Path} {others : List Bytes} (below : Below root names path)
    (read : other.components = root.components ++ others.map .name)
    : other.startsWith path = true ↔ names <+: others := by
  unfold Path.startsWith
  rw [below.components, read, List.isPrefixOf_iff_prefix, List.prefix_append_right_inj]
  exact List.prefix_map_iff_of_injective fun _ _ => Component.name.inj

end Below

theorem below_descend {root : Path} (absolute : root.isAbsolute = true) {names : List Bytes}
    (proper : ∀ name ∈ names, IsName name)
    : Below root names (root.descend names) :=
  (Below.self absolute).descend proper

/-- A path that is read as some names below a root. -/
def IsInside (root path : Path) : Prop :=
  ∃ names, names ≠ [] ∧ (∀ name ∈ names, IsName name) ∧ Below root names path

/-- What is inside a path below a root is inside the root. -/
theorem IsInside.trans {root path inner : Path} {names : List Bytes} (below : Below root names path)
    (proper : ∀ name ∈ names, IsName name) (inside : IsInside path inner)
    : IsInside root inner := by
  obtain ⟨more, given, proper', below'⟩ := inside
  exact ⟨names ++ more, by simp [given], List.forall_mem_append.mpr ⟨proper, proper'⟩,
    below.trans below' given⟩

theorem isText_descend {directory : Path} (text : Bytes.IsText directory.bytes)
    {names : List Bytes} (texts : ∀ name ∈ names, Bytes.IsText name)
    : Bytes.IsText (directory.descend names).bytes := by
  have mark : Bytes.IsText [slash] := ⟨"/", rfl⟩
  induction names using List.reverseRecOn with
  | nil => exact text
  | append_singleton front last ih =>
      obtain ⟨first, final⟩ := List.forall_mem_append.mp texts
      have name := final last List.mem_cons_self
      rw [descend_concat, join]
      split
      · exact name
      · split
        · exact (ih first).append name
        · exact (ih first).append (mark.append name)

section

variable {directory : Path} {name : Bytes}

theorem join_closed (closed : directory.bytes.getLast? = some slash) (unbroken : slash ∉ name)
    : directory.join ⟨name⟩ = ⟨directory.bytes ++ name⟩ := by
  rw [join, isAbsolute_of_whole unbroken, if_neg (by decide), if_pos (.inr closed)]

theorem join_open (given : directory.bytes ≠ []) (opened : directory.bytes.getLast? ≠ some slash)
    (unbroken : slash ∉ name)
    : directory.join ⟨name⟩ = ⟨directory.bytes ++ slash :: name⟩ := by
  rw [join, isAbsolute_of_whole unbroken, if_neg (by decide), if_neg (not_or.mpr ⟨given, opened⟩)]

end

/-- A joined name makes a path longer, by a slash if there is none at its end. -/
theorem length_join {directory : Path} (absolute : directory.isAbsolute = true) {name : Bytes}
    (whole : slash ∉ name)
    : (directory.join ⟨name⟩).bytes.length
      = directory.bytes.length + name.length
        + if directory.bytes.getLast? = some slash then 0 else 1 := by
  obtain ⟨tail, rfl⟩ := (isAbsolute_iff directory).mp absolute
  rw [join, isAbsolute_of_whole whole, if_neg (by decide)]
  by_cases ends : (slash :: tail).getLast? = some slash
  · rw [if_pos (.inr ends), if_pos ends, List.length_append]
    rfl
  · rw [if_neg (not_or.mpr ⟨List.cons_ne_nil _ _, ends⟩), if_neg ends, List.length_append,
      List.length_cons]
    change _ + (name.length + 1) = _
    omega

theorem length_lt_join {directory : Path} (absolute : directory.isAbsolute = true) {name : Bytes}
    (proper : IsName name)
    : directory.bytes.length < (directory.join ⟨name⟩).bytes.length := by
  have given := List.length_pos_iff.mpr proper.ne_nil
  rw [length_join absolute proper.whole]
  omega

/-- A path that is no longer than another, also with more names behind both. -/
structure Tighter (path other : Path) : Prop where
  short : path.bytes.length ≤ other.bytes.length
  closed : other.bytes.getLast? = some slash → path.bytes.getLast? = some slash

theorem getLast?_join (directory : Path) {name : Bytes} (proper : IsName name)
    : (directory.join ⟨name⟩).bytes.getLast? ≠ some slash := by
  have last (front : Bytes) : (front ++ name).getLast? ≠ some slash := by
    rw [List.getLast?_append_of_ne_nil _ proper.ne_nil]
    exact fun last => proper.whole (List.mem_of_getLast? last)
  rw [join, isAbsolute_of_whole proper.whole, if_neg (by decide)]
  split
  · exact last _
  · rw [← List.singleton_append, ← List.append_assoc]
    exact last _

theorem Tighter.join {path other : Path} (tighter : Tighter path other)
    (absolute : path.isAbsolute = true) (absolute' : other.isAbsolute = true) {name : Bytes}
    (proper : IsName name)
    : Tighter (path.join ⟨name⟩) (other.join ⟨name⟩) where
  short := by
    rw [length_join absolute proper.whole, length_join absolute' proper.whole]
    have short := tighter.short
    by_cases ends : other.bytes.getLast? = some slash
    · rw [if_pos ends, if_pos (tighter.closed ends)]
      omega
    · rw [if_neg ends]
      split <;> omega
  closed ends := absurd ends (getLast?_join other proper)

theorem Tighter.descend {path other : Path} (tighter : Tighter path other)
    (absolute : path.isAbsolute = true) (absolute' : other.isAbsolute = true)
    {names : List Bytes} (proper : ∀ name ∈ names, IsName name)
    : Tighter (path.descend names) (other.descend names) := by
  induction names generalizing path other with
  | nil => exact tighter
  | cons name rest ih =>
      obtain ⟨first, later⟩ := List.forall_mem_cons.mp proper
      exact ih (tighter.join absolute absolute' first) (isAbsolute_join absolute _)
        (isAbsolute_join absolute' _) later

theorem length_le_descend {directory : Path} (absolute : directory.isAbsolute = true)
    {names : List Bytes} (proper : ∀ name ∈ names, IsName name)
    : directory.bytes.length ≤ (directory.descend names).bytes.length := by
  induction names generalizing directory with
  | nil => exact Nat.le_refl _
  | cons name rest ih =>
      obtain ⟨first, later⟩ := List.forall_mem_cons.mp proper
      exact Nat.le_trans (Nat.le_of_lt (length_lt_join absolute first))
        (ih (isAbsolute_join absolute _) later)

theorem IsPlain.descend {directory : Path} (plain : directory.IsPlain) {names : List Bytes}
    (proper : ∀ name ∈ names, IsName name)
    : (directory.descend names).IsPlain := by
  induction names generalizing directory with
  | nil => exact plain
  | cons name rest ih =>
      obtain ⟨first, later⟩ := List.forall_mem_cons.mp proper
      exact ih (plain.join first) later

/-- From the top, every name takes a slash. -/
theorem length_descend_top {names : List Bytes} (proper : ∀ name ∈ names, IsName name)
    (given : names ≠ [])
    : ((Path.ofText "/").descend names).bytes.length
      = (names.map fun name => name.length + 1).sum := by
  induction names using List.reverseRecOn with
  | nil => exact absurd rfl given
  | append_singleton front last ih =>
      obtain ⟨first, final⟩ := List.forall_mem_append.mp proper
      have whole := (final last List.mem_cons_self).whole
      rw [descend_concat, length_join (IsPlain.top.descend first).isAbsolute whole, List.map_append,
        List.sum_append]
      rcases List.eq_nil_or_concat front with rfl | ⟨inner, name, rfl⟩
      · change 1 + last.length + 0 = 0 + (last.length + 1 + 0)
        omega
      · rw [List.concat_eq_append] at first ih ⊢
        have properName := first name (by simp)
        rw [ih first (by simp), descend_concat, if_neg (getLast?_join _ properName),
          List.map_singleton, List.sum_singleton]
        omega

end Path

end RouteDesk
