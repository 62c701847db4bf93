import RouteDesk.Proofs.Route.Accepted

/-! Which names are accepted for new routes, character by character, and which rule any other name
is told of: the first one that it breaks. What a path takes for an extension comes down to where a
name has dots, and what is asked of the name and of its file name to what is asked of the name.
-/

namespace RouteDesk

open RouteDesk.Path (slash dot)

-----------------------------------------------------------------------------------------
-- Extensions of single names
-----------------------------------------------------------------------------------------

namespace Path

/-- What stands behind the last mark leaves more than the mark just if there is one that is not in
front, by induction on the items from the last one on.
-/
theorem length_takeWhile_lt_iff {α : Type} [DecidableEq α] (mark : α) (items : List α)
    : (items.takeWhile (· != mark)).length + 1 < items.length ↔ mark ∈ items.dropLast := by
  induction items with
  | nil => simp
  | cons item rest ih =>
      cases rest with
      | nil =>
          refine iff_of_false ?_ List.not_mem_nil
          simp
      | cons other more =>
          rw [List.dropLast_cons_cons, List.mem_cons, ← ih, List.takeWhile_cons]
          by_cases same : item = mark
          · simp [same]
          · simp [same, Ne.symm same]

/-- A single piece of a path is its name, unless it stands for nothing or for a way. -/
theorem fileName?_of_whole {bytes : Bytes} (whole : slash ∉ bytes)
    : (⟨bytes⟩ : Path).fileName?
      = if bytes = [] ∨ bytes = [dot] ∨ bytes = [dot, dot] then none else some bytes := by
  by_cases here : bytes = [dot]
  · subst here
    rfl
  · have read : (⟨bytes⟩ : Path).components = (component? bytes).toList := by
      simp [components, Text.pieces_of_not_mem whole, isAbsolute_of_whole whole, here]
    unfold fileName?
    rw [read, component?]
    by_cases empty : bytes = []
    · simp [empty]
    · by_cases up : bytes = [dot, dot]
      · simp [up]
      · simp [empty, here, up]

/-- A single piece has no extension just if its only dot is in front, or it is the way up. -/
theorem extension?_eq_none_iff {bytes : Bytes} (whole : slash ∉ bytes)
    : (⟨bytes⟩ : Path).extension? = none ↔ bytes = [dot, dot] ∨ dot ∉ bytes.tail := by
  have behind := length_takeWhile_lt_iff dot bytes.reverse
  rw [← List.mem_reverse, ← List.tail_reverse, List.reverse_reverse, List.length_reverse]
    at behind
  unfold extension?
  rw [fileName?_of_whole whole]
  split
  case h_1 unnamed =>
    refine iff_of_true rfl ?_
    split at unnamed
    case isTrue special =>
      rcases special with rfl | rfl | rfl
      · exact .inr (by decide)
      · exact .inr (by decide)
      · exact .inl rfl
    case isFalse => cases unnamed
  case h_2 name named =>
    split at named
    case isTrue => cases named
    case isFalse plain =>
      obtain rfl := Option.some.inj named
      simp only [not_or] at plain
      rw [or_iff_right plain.2.2, ← behind]
      dsimp only
      rw [List.length_reverse, ite_eq_right_iff]
      simp only [reduceCtorEq, imp_false, not_and]
      omega

end Path

-----------------------------------------------------------------------------------------
-- The grammar of accepted names
-----------------------------------------------------------------------------------------

namespace RouteName

variable {tree : FileTree} {root : Path} {dialect : Dialect} {name : String}

/-- Two texts that differ in nothing but the case of ASCII letters. -/
def SameLetters (first second : String) : Prop :=
  first.toList.map Char.toUpper = second.toList.map Char.toUpper

/-- A character that file names may have on every common system. -/
def Allowed (char : Char) : Prop :=
  char ∉ ['<', '>', ':', '"', '/', '\\', '|', '?', '*'] ∧ ¬ char.toNat < 0x20 ∧ char.toNat ≠ 0x7F

/-- A name that every common system takes, also with the suffix of the dialect behind it. -/
structure Portable (dialect : Dialect) (name : String) : Prop where
  allowed : ∀ char ∈ name.toList, Allowed char
  proper : name ≠ "." ∧ name ≠ ".."
  unreserved : ∀ device ∈ reserved, ¬ SameLetters name device
  short : (Bytes.ofText name).length + (Bytes.ofText dialect.suffix).length ≤ 255

/-- The names that are accepted for routes of the dialect in a workspace, character by character. -/
structure Acceptable (tree : FileTree) (root : Path) (dialect : Dialect) (name : String)
    : Prop where
  given : ∃ char ∈ name.toList, Text.isBlank char = false
  allowed : ∀ char ∈ name.toList, Allowed char
  notDot : name ≠ "."
  whole : '.' ∉ name.toList.tail
  unreserved : ∀ device ∈ reserved, ¬ SameLetters name device
  short : (Bytes.ofText name).length + (Bytes.ofText dialect.suffix).length ≤ 255
  free : tree.target? (root.join (Path.ofText (name ++ dialect.suffix))) = none
  unbroken : dialect = .java → ∀ char ∈ name.toList, Text.isBlank char = false
  capital : dialect = .java → ∃ char rest, name.toList = char :: rest ∧ Text.isUpperCase char = true

/-- What is asked of a name. -/
inductive Rule where
  | given
  | whole
  | free
  | portable
  | unbroken
  | capital
deriving DecidableEq

namespace Rule

/-- Every rule, in the order in which names are held against them. -/
def all : List Rule :=
  [.given, .whole, .free, .portable, .unbroken, .capital]

/-- The rules that come before this one. -/
def earlier (rule : Rule) : List Rule :=
  all.takeWhile (· != rule)

/-- What a rule asks of a name: that it is not blank, that it has no extension as a path, that
its file is not there, that it is portable, and for Java that it has no blanks and an upper-case
initial.
-/
def Kept (tree : FileTree) (root : Path) (dialect : Dialect) (name : String) : Rule → Prop
  | .given => ∃ char ∈ name.toList, Text.isBlank char = false
  | .whole => (Path.ofText name).extension? = none
  | .free => tree.target? (root.join (Path.ofText (name ++ dialect.suffix))) = none
  | .portable => Portable dialect name
  | .unbroken => dialect = .java → ∀ char ∈ name.toList, Text.isBlank char = false
  | .capital =>
    dialect = .java → ∃ char rest, name.toList = char :: rest ∧ Text.isUpperCase char = true

/-- What the user is told who breaks a rule. -/
def refusal (dialect : Dialect) (name : String) : Rule → NameError
  | .given => .nothingGiven
  | .whole => .withExtension
  | .free => .taken (dialect.fileName name)
  | .portable => .notPortable name
  | .unbroken => .containsBlank
  | .capital => .smallInitial

/-- The rule is the first one that the name breaks. -/
structure FirstBroken (tree : FileTree) (root : Path) (dialect : Dialect) (name : String)
    (rule : Rule) : Prop where
  before : ∀ other ∈ rule.earlier, other.Kept tree root dialect name
  broken : ¬ rule.Kept tree root dialect name

end Rule

theorem isAllBlank_eq_false_iff
    : Text.isAllBlank name = false ↔ Rule.given.Kept tree root dialect name := by
  simp [Rule.Kept, Text.isAllBlank, List.all_eq_false]

theorem illegal_or_isControl_eq_false_iff {char : Char}
    : (illegal.contains char || isControl char) = false ↔ Allowed char := by
  simp [Allowed, illegal, isControl]

/-- Devices are written with capital letters. -/
theorem isReserved_eq_false_iff
    : isReserved name = false ↔ ∀ device ∈ reserved, ¬ SameLetters name device := by
  have capitals : ∀ device ∈ reserved, device.toList.map Char.toUpper = device.toList := by
    decide
  rw [isReserved, List.any_eq_false]
  refine forall₂_congr fun device among => ?_
  rw [SameLetters, capitals device among, beq_iff_eq, eq_comm]

/-- The suffix of a dialect adds a dot, and nothing that is not allowed. -/
theorem suffix_allowed (dialect : Dialect)
    : '.' ∈ dialect.suffix.toList ∧ ∀ char ∈ dialect.suffix.toList, Allowed char := by
  cases dialect <;> simp [Dialect.suffix, Allowed]

theorem isPortable_iff
    : isPortable name = true
      ↔ name ≠ "" ∧ (Bytes.ofText name).length ≤ 255 ∧ (name ≠ "." ∧ name ≠ "..")
        ∧ (∀ char ∈ name.toList, Allowed char)
        ∧ ∀ device ∈ reserved, ¬ SameLetters name device := by
  rw [← isReserved_eq_false_iff]
  simp only [isPortable, Bool.and_eq_true, bne_iff_ne, decide_eq_true_eq, Bool.not_eq_true',
    List.any_eq_false, Bool.not_eq_true, illegal_or_isControl_eq_false_iff]
  unfold lengthLimit
  tauto

/-- A file name is not reserved, for it has a dot. -/
theorem isReserved_fileName (dialect : Dialect) (name : String)
    : isReserved (dialect.fileName name) = false := by
  have undotted : ∀ device ∈ reserved, '.' ∉ device.toList := by
    decide
  rw [isReserved, List.any_eq_false]
  intro device among same
  rw [beq_iff_eq] at same
  refine undotted device among ?_
  rw [same, Dialect.fileName, String.toList_append]
  exact List.mem_map.mpr ⟨'.', List.mem_append_right _ (suffix_allowed dialect).1, rfl⟩

/-- A file name is longer than every name that stands for a way. -/
theorem two_lt_length_fileName (dialect : Dialect) (name : String)
    : 2 < (dialect.fileName name).length := by
  have suffixed : 2 < dialect.suffix.length := by
    cases dialect <;> decide
  rw [Dialect.fileName, String.length_append]
  omega

/-- A name and its file name are both portable just if the name is, and is not too long with the
suffix behind it.
-/
theorem isPortable_both_iff (given : name ≠ "")
    : (isPortable (dialect.fileName name) && isPortable name) = true ↔ Portable dialect name := by
  have measured : (Bytes.ofText (dialect.fileName name)).length
      = (Bytes.ofText name).length + (Bytes.ofText dialect.suffix).length := by
    rw [Dialect.fileName, Bytes.ofText_append, List.length_append]
  have proper : dialect.fileName name ≠ "" ∧ dialect.fileName name ≠ "."
      ∧ dialect.fileName name ≠ ".." := by
    have long := two_lt_length_fileName dialect name
    refine ⟨?_, ?_, ?_⟩ <;> intro same <;> rw [same] at long <;> exact absurd long (by decide)
  have spelled : (∀ char ∈ (dialect.fileName name).toList, Allowed char)
      ↔ ∀ char ∈ name.toList, Allowed char := by
    rw [Dialect.fileName, String.toList_append, List.forall_mem_append]
    exact and_iff_left (suffix_allowed dialect).2
  rw [Bool.and_eq_true, isPortable_iff, isPortable_iff, spelled, measured]
  constructor
  · rintro ⟨⟨-, short, -, -, -⟩, -, -, notWay, allowed, unreserved⟩
    exact ⟨allowed, notWay, unreserved, short⟩
  · rintro ⟨allowed, notWay, unreserved, short⟩
    have free := isReserved_eq_false_iff.mp (isReserved_fileName dialect name)
    exact ⟨⟨proper.1, short, proper.2, allowed, free⟩, given, Nat.le_of_add_right_le short, notWay,
      allowed, unreserved⟩

-----------------------------------------------------------------------------------------
-- What the check answers
-----------------------------------------------------------------------------------------

theorem ne_empty_of_given (given : Rule.given.Kept tree root dialect name)
    : name ≠ "" := by
  rintro rfl
  obtain ⟨char, among, -⟩ := given
  exact List.not_mem_nil among

/-- Each test of the check asks whether a rule is broken, as long as the name is not blank. -/
theorem any_isBlank_iff (tree : FileTree) (root : Path)
    : (!dialect.allowsBlanks && name.toList.any Text.isBlank) = true
      ↔ ¬ Rule.unbroken.Kept tree root dialect name := by
  cases dialect <;> simp [Rule.Kept, Dialect.allowsBlanks]

theorem startsUpperCase_iff (tree : FileTree) (root : Path)
    : (dialect == .java && !startsUpperCase name) = true
      ↔ ¬ Rule.capital.Kept tree root dialect name := by
  unfold startsUpperCase Rule.Kept
  cases dialect <;> cases name.toList <;> simp

theorem extension?_iff (tree : FileTree) (root : Path) (dialect : Dialect)
    : (Path.ofText name).extension?.isSome = true ↔ ¬ Rule.whole.Kept tree root dialect name := by
  simp [Rule.Kept, Option.isSome_iff_ne_none]

theorem isPresent_iff
    : tree.isPresent (root.child (dialect.fileName name)) = true
      ↔ ¬ Rule.free.Kept tree root dialect name := by
  simp [Rule.Kept, FileTree.isPresent, Path.child, Dialect.fileName, Option.isSome_iff_ne_none]

open Classical in
/-- The check holds a name against one rule after the other. -/
theorem check_eq_ite (tree : FileTree) (root : Path) (dialect : Dialect) (name : String)
    : check tree root dialect name
      = if ¬ Rule.given.Kept tree root dialect name then .error .nothingGiven
        else if ¬ Rule.whole.Kept tree root dialect name then .error .withExtension
        else if ¬ Rule.free.Kept tree root dialect name then .error (.taken (dialect.fileName name))
        else if ¬ Rule.portable.Kept tree root dialect name then .error (.notPortable name)
        else if ¬ Rule.unbroken.Kept tree root dialect name then .error .containsBlank
        else if ¬ Rule.capital.Kept tree root dialect name then .error .smallInitial
        else .ok () := by
  by_cases given : Rule.given.Kept tree root dialect name
  case neg =>
    have blank := mt isAllBlank_eq_false_iff.mp given
    rw [Bool.not_eq_false] at blank
    simp [check, blank, given]
  case pos =>
    have portable : (!(isPortable (dialect.fileName name) && isPortable name)) = true
        ↔ ¬ Rule.portable.Kept tree root dialect name := by
      rw [Bool.not_eq_true', ← Bool.not_eq_true, isPortable_both_iff (ne_empty_of_given given)]
      rfl
    have notBlank := isAllBlank_eq_false_iff.mpr given
    simp only [check, notBlank, extension?_iff tree root dialect, isPresent_iff, portable,
      any_isBlank_iff tree root, startsUpperCase_iff tree root, given, not_true_eq_false, if_false,
      Bool.false_eq_true]

/-- A name is refused by the first rule that it breaks. -/
theorem check_of_firstBroken {rule : Rule} (first : rule.FirstBroken tree root dialect name)
    : check tree root dialect name = .error (rule.refusal dialect name) := by
  obtain ⟨before, broken⟩ := first
  rw [check_eq_ite]
  cases rule <;> simp_all [Rule.earlier, Rule.all, Rule.refusal]

/-- A name that keeps every rule is accepted. -/
theorem check_of_kept (kept : ∀ rule ∈ Rule.all, rule.Kept tree root dialect name)
    : check tree root dialect name = .ok () := by
  simp only [Rule.all, List.forall_mem_cons] at kept
  simp [check_eq_ite, kept]

/-- Some rule is the first that is broken, if any is. -/
theorem Rule.exists_firstBroken (tree : FileTree) (root : Path) (dialect : Dialect) (name : String)
    : (∀ rule ∈ Rule.all, rule.Kept tree root dialect name)
      ∨ ∃ rule : Rule, rule.FirstBroken tree root dialect name := by
  classical
  cases found : Rule.all.find? fun rule => ¬ rule.Kept tree root dialect name with
  | none => exact .inl (by simpa using found)
  | some rule =>
      obtain ⟨broken, before, after, parted, passed⟩ := List.find?_eq_some_iff_append.mp found
      rw [decide_eq_true_eq] at broken
      have kept : ∀ other ∈ before, other.Kept tree root dialect name := by
        simpa using passed
      have different : ∀ other ∈ before, (other != rule) = true := fun other among =>
        bne_iff_ne.mpr fun same => broken (same ▸ kept other among)
      refine .inr ⟨rule, fun other among => kept other ?_, broken⟩
      unfold earlier at among
      rw [parted, List.takeWhile_append_of_pos different] at among
      simpa using among

/-- An accepted name is a name in a directory, so that a way is not among them. -/
theorem acceptable_iff
    : Acceptable tree root dialect name ↔ ∀ rule ∈ Rule.all, rule.Kept tree root dialect name := by
  have dots : dot ∈ (Bytes.ofText name).tail ↔ '.' ∈ name.toList.tail := by
    rw [← Bytes.mem_tail_ofText_iff (by decide : '.'.toNat < 0x80), String.ofList_toList]
    rfl
  have unslashed (allowed : ∀ char ∈ name.toList, Allowed char) : slash ∉ Bytes.ofText name := by
    intro inside
    rw [← String.ofList_toList (s := name)] at inside
    have among := (Bytes.mem_ofText_iff (by decide : '/'.toNat < 0x80)).mp inside
    simpa using (allowed '/' among).1
  simp only [Rule.all, List.forall_mem_cons, List.not_mem_nil, false_implies, implies_true,
    and_true, Rule.Kept]
  constructor
  · intro acceptable
    have extended := Path.extension?_eq_none_iff (unslashed acceptable.allowed)
    have way : name ≠ ".." := by
      rintro rfl
      exact acceptable.whole (by decide)
    exact ⟨acceptable.given, extended.mpr (.inr (dots.not.mpr acceptable.whole)), acceptable.free,
      ⟨acceptable.allowed, ⟨acceptable.notDot, way⟩, acceptable.unreserved, acceptable.short⟩,
      acceptable.unbroken, acceptable.capital⟩
  · rintro ⟨given, whole, free, portable, unbroken, capital⟩
    refine ⟨given, portable.allowed, portable.proper.1, ?_, portable.unreserved, portable.short,
      free, unbroken, capital⟩
    rcases (Path.extension?_eq_none_iff (unslashed portable.allowed)).mp whole with up | single
    · exact absurd (Bytes.ofText_injective up) portable.proper.2
    · exact dots.not.mp single

/-- Names are accepted just if they are acceptable, character by character, and any other name is
refused with the first rule that it breaks.
-/
theorem check_iff (tree : FileTree) (root : Path) (dialect : Dialect) (name : String)
    : (check tree root dialect name = .ok () ↔ Acceptable tree root dialect name)
      ∧ ∀ reason, check tree root dialect name = .error reason
        ↔ ∃ rule : Rule, rule.FirstBroken tree root dialect name
          ∧ reason = rule.refusal dialect name := by
  rw [acceptable_iff]
  rcases Rule.exists_firstBroken tree root dialect name with kept | ⟨rule, first⟩
  · refine ⟨iff_of_true (check_of_kept kept) kept, fun reason => iff_of_false ?_ ?_⟩
    · simp [check_of_kept kept]
    · rintro ⟨rule, first, -⟩
      exact first.broken (kept rule (by cases rule <;> decide))
  · have refused := check_of_firstBroken first
    constructor
    · refine iff_of_false ?_ fun kept => first.broken (kept rule (by cases rule <;> decide))
      simp [refused]
    · intro reason
      constructor
      · intro answer
        exact ⟨rule, first, Except.error.inj (answer.symm.trans refused)⟩
      · rintro ⟨other, first', rfl⟩
        exact check_of_firstBroken first'

end RouteName

end RouteDesk
