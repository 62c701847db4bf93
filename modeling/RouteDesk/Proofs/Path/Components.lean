import RouteDesk.FileTree.Walk
import Mathlib.Tactic

/-! What a path is read as, and the path that is written from it. A path from the components of
another asks for the same steps, apart from those that stay where they are, and it is not longer.
-/

namespace RouteDesk

-----------------------------------------------------------------------------------------
-- Pieces
-----------------------------------------------------------------------------------------

namespace Text

variable {α : Type}

theorem pieces_eq_splitOn [DecidableEq α] (mark : α) (items : List α)
    : (pieces mark items).1 :: (pieces mark items).2 = items.splitOn mark := by
  induction items with
  | nil => rfl
  | cons item rest ih =>
      rw [List.splitOn_cons_eq_if_modifyHead, ← ih, pieces]
      by_cases same : item = mark <;> simp [same]

theorem not_mem_of_mem_splitOn [DecidableEq α] {mark : α} {items piece : List α}
    (member : piece ∈ items.splitOn mark)
    : mark ∉ piece := by
  induction items generalizing piece with
  | nil =>
      obtain rfl := List.mem_singleton.mp member
      exact List.not_mem_nil
  | cons item rest ih =>
      rw [List.splitOn_cons_eq_if_modifyHead] at member
      split at member
      case isTrue =>
        rcases List.mem_cons.mp member with rfl | later
        · exact List.not_mem_nil
        · exact ih later
      case isFalse different =>
        cases pieces : rest.splitOn mark with
        | nil => simp [pieces] at member
        | cons first later =>
            rw [pieces, List.modifyHead_cons] at member
            rcases List.mem_cons.mp member with rfl | after
            · have inner := ih (pieces ▸ List.mem_cons_self)
              simpa [inner] using Ne.symm (by simpa using different)
            · exact ih (pieces ▸ List.mem_cons_of_mem _ after)

/-- What is no mark is in one of the pieces. -/
theorem mem_iff_of_ne [DecidableEq α] {mark item : α} (different : item ≠ mark) {items : List α}
    : item ∈ items ↔ ∃ piece ∈ items.splitOn mark, item ∈ piece := by
  induction items with
  | nil => simp
  | cons first rest ih =>
      rw [List.splitOn_cons_eq_if_modifyHead, List.mem_cons, ih]
      split
      case isTrue same => simp [beq_iff_eq.mp same, different]
      case isFalse =>
        obtain ⟨piece, later, cut⟩ := List.exists_cons_of_ne_nil (List.splitOn_ne_nil mark rest)
        simp [cut, or_assoc]

theorem splitOn_append_of_not_mem [DecidableEq α] {mark : α} {front : List α}
    (absent : mark ∉ front) (back : List α)
    : (front ++ back).splitOn mark = (back.splitOn mark).modifyHead (front ++ ·) := by
  induction front with
  | nil => exact (congrFun List.modifyHead_id _).symm
  | cons item rest ih =>
      rw [List.mem_cons, not_or] at absent
      rw [List.cons_append, List.splitOn_cons_eq_if_modifyHead,
        if_neg (by simpa using Ne.symm absent.1), ih absent.2, List.modifyHead_modifyHead]
      rfl

/-- Writing every item out in other items cuts at the same marks. -/
theorem splitOn_flatMap {β : Type} [DecidableEq α] [DecidableEq β] {write : α → List β}
    {mark : α} {other : β} (ends : write mark = [other])
    (apart : ∀ item, item ≠ mark → other ∉ write item) (items : List α)
    : (items.flatMap write).splitOn other = (items.splitOn mark).map (·.flatMap write) := by
  induction items with
  | nil => rfl
  | cons item rest ih =>
      rw [List.flatMap_cons, List.splitOn_cons_eq_if_modifyHead]
      split
      case isTrue same =>
        rw [beq_iff_eq.mp same, ends, List.singleton_append,
          List.splitOn_cons_eq_if_modifyHead, if_pos (by simp), ih]
        rfl
      case isFalse different =>
        rw [splitOn_append_of_not_mem (apart item (by simpa using different)), ih]
        cases rest.splitOn mark <;> rfl

/-- Fewer pieces are written as fewer items. -/
theorem intercalate_sublist (mark : List α) {fewer pieces : List (List α)}
    (kept : fewer.Sublist pieces)
    : (mark.intercalate fewer).Sublist (mark.intercalate pieces) := by
  induction kept with
  | slnil => exact List.Sublist.refl _
  | @cons fewer pieces piece kept ih =>
      cases pieces with
      | nil =>
          obtain rfl := List.sublist_nil.mp kept
          simp [List.intercalate]
      | cons =>
          rw [List.intercalate_cons_cons]
          exact ih.trans (List.sublist_append_right _ _)
  | @cons_cons fewer pieces piece kept ih =>
      cases pieces with
      | nil =>
          obtain rfl := List.sublist_nil.mp kept
          exact List.Sublist.refl _
      | cons other more =>
          cases fewer with
          | nil => simp [List.intercalate]
          | cons =>
              rw [List.intercalate_cons_cons, List.intercalate_cons_cons]
              exact (List.Sublist.refl _).append ih

end Text

-----------------------------------------------------------------------------------------
-- Components
-----------------------------------------------------------------------------------------

/-- A component that can stand anywhere on a path: one up, or a name that is read as one. -/
inductive Component.Inner : Component → Prop
  | up : Inner .up
  | name {bytes : Bytes} (whole : Path.slash ∉ bytes) (given : bytes ≠ [])
    (named : bytes ≠ [Path.dot] ∧ bytes ≠ [Path.dot, Path.dot])
    : Inner (.name bytes)

/-- The step that a component asks a walk to take, unless it leads nowhere else. -/
def Component.step? : Component → Option Step
  | .root => none
  | .here => none
  | .up => some .up
  | .name bytes => some (.into bytes)

theorem Component.Inner.step? {component : Component} (inner : component.Inner)
    : ∃ step, component.step? = some step := by
  cases inner with
  | up => exact ⟨_, rfl⟩
  | name => exact ⟨_, rfl⟩

/-- The steps of a walk that do not stay where they are. -/
def Step.moves (steps : List Step) : List Step :=
  steps.filter (· ≠ .stay)

namespace Path

open ofComponents (written piece)

/-- Components as a path can be read: only the first one can be a root or a dot. -/
inductive Regular : List Component → Prop
  | plain {inner : List Component} (all : ∀ component ∈ inner, component.Inner) : Regular inner
  | rooted {inner : List Component} (all : ∀ component ∈ inner, component.Inner)
    : Regular (.root :: inner)
  | here {inner : List Component} (all : ∀ component ∈ inner, component.Inner)
    : Regular (.here :: inner)

theorem Regular.of_prefix {front components : List Component} (regular : Regular components)
    (start : front <+: components)
    : Regular front := by
  have below {kept inner : List Component} (all : ∀ component ∈ inner, component.Inner)
      (start : kept <+: inner) (component : Component) (member : component ∈ kept)
      : component.Inner := all component (start.subset member)
  cases regular with
  | plain all => exact .plain (below all start)
  | rooted all =>
      rcases List.prefix_cons_iff.mp start with rfl | ⟨kept, rfl, inside⟩
      · exact .plain nofun
      · exact .rooted (below all inside)
  | here all =>
      rcases List.prefix_cons_iff.mp start with rfl | ⟨kept, rfl, inside⟩
      · exact .plain nofun
      · exact .here (below all inside)

theorem Regular.inner_of_mem_tail {components : List Component} (regular : Regular components)
    {component : Component} (member : component ∈ components.tail)
    : component.Inner := by
  cases regular with
  | plain all => exact all component (List.mem_of_mem_tail member)
  | rooted all => exact all component member
  | here all => exact all component member

theorem inner_of_component? {bytes : Bytes} {component : Component} (whole : slash ∉ bytes)
    (read : component? bytes = some component)
    : component.Inner ∧ piece component = bytes := by
  unfold component? at read
  split at read
  case isTrue => cases read
  case isFalse plain =>
    rw [not_or] at plain
    split at read
    case isTrue dots =>
      obtain rfl := Option.some.inj read
      exact ⟨.up, dots.symm⟩
    case isFalse named =>
      obtain rfl := Option.some.inj read
      exact ⟨.name whole plain.1 ⟨plain.2, named⟩, rfl⟩

theorem component?_piece {component : Component} (inner : component.Inner)
    : component? (piece component) = some component := by
  cases inner with
  | up => rfl
  | name whole given named => simp [piece, component?, given, named.1, named.2]

theorem filterMap_component?_piece {inner : List Component}
    (all : ∀ component ∈ inner, component.Inner)
    : (inner.map piece).filterMap component? = inner := by
  induction inner with
  | nil => rfl
  | cons component rest ih =>
      rw [List.forall_mem_cons] at all
      rw [List.map_cons, List.filterMap_cons, component?_piece all.1, ih all.2]

theorem not_mem_piece {component : Component} (inner : component.Inner)
    : slash ∉ piece component ∧ piece component ≠ [] := by
  cases inner with
  | up => decide
  | name whole given named => exact ⟨whole, given⟩

/-- A byte of an absolute path, other than those that pieces are made of, is in one of its names. -/
theorem mem_iff_mem_name {tail : Bytes} {byte : UInt8} (notSlash : byte ≠ slash)
    (notDot : byte ≠ dot)
    : byte ∈ slash :: tail
      ↔ ∃ name, .name name ∈ (tail.splitOn slash).filterMap component? ∧ byte ∈ name := by
  rw [List.mem_cons, or_iff_right notSlash, Text.mem_iff_of_ne notSlash]
  constructor
  · rintro ⟨piece, member, inside⟩
    refine ⟨piece, List.mem_filterMap.mpr ⟨piece, member, ?_⟩, inside⟩
    have given : piece ≠ [] := List.ne_nil_of_mem inside
    have notHere : piece ≠ [dot] := by
      rintro rfl
      exact notDot (List.mem_singleton.mp inside)
    have notUp : piece ≠ [dot, dot] := by
      rintro rfl
      exact notDot (by simpa using inside)
    simp [component?, given, notHere, notUp]
  · rintro ⟨name, member, inside⟩
    obtain ⟨piece, among, read⟩ := List.mem_filterMap.mp member
    obtain ⟨-, same⟩ := inner_of_component? (Text.not_mem_of_mem_splitOn among) read
    exact ⟨name, (show name = piece from same) ▸ among, inside⟩

/-- Of the pieces of a path those are written again that are read as components. -/
theorem map_piece_sublist {pieces : List Bytes} (whole : ∀ bytes ∈ pieces, slash ∉ bytes)
    : ((pieces.filterMap component?).map piece).Sublist pieces := by
  induction pieces with
  | nil => exact .slnil
  | cons bytes rest ih =>
      rw [List.forall_mem_cons] at whole
      rw [List.filterMap_cons]
      split
      case h_1 => exact (ih whole.2).cons _
      case h_2 component read =>
        rw [List.map_cons, (inner_of_component? whole.1 read).2]
        exact (ih whole.2).cons_cons _

theorem inner_of_mem_filterMap {pieces : List Bytes} (whole : ∀ bytes ∈ pieces, slash ∉ bytes)
    : ∀ component ∈ pieces.filterMap component?, component.Inner := by
  intro component member
  obtain ⟨bytes, from', read⟩ := List.mem_filterMap.mp member
  exact (inner_of_component? (whole bytes from') read).1

-----------------------------------------------------------------------------------------
-- Absolute and relative paths
-----------------------------------------------------------------------------------------

theorem isAbsolute_iff (path : Path)
    : path.isAbsolute = true ↔ ∃ tail, path = ⟨slash :: tail⟩ := by
  obtain ⟨bytes⟩ := path
  cases bytes with
  | nil => simp [isAbsolute]
  | cons first rest => simp [isAbsolute]

/-- An absolute path is read behind its first slash. -/
theorem components_absolute (tail : Bytes)
    : (⟨slash :: tail⟩ : Path).components
      = .root :: (tail.splitOn slash).filterMap component? := by
  rw [← Text.pieces_eq_splitOn]
  simp [components, isAbsolute, Text.pieces]

theorem isAbsolute_eq_false {path : Path} {first : Bytes} {later : List Bytes}
    (cut : path.bytes.splitOn slash = first :: later) (given : first ≠ [])
    : path.isAbsolute = false := by
  rw [← Bool.not_eq_true, isAbsolute_iff]
  rintro ⟨tail, rfl⟩
  rw [List.splitOn_cons_eq_if_modifyHead, if_pos (by simp)] at cut
  exact given (List.cons.inj cut).1.symm

/-- The first piece of a relative path can be the dot that it starts from. -/
theorem components_here {path : Path} {later : List Bytes}
    (cut : path.bytes.splitOn slash = [dot] :: later)
    : path.components = .here :: later.filterMap component? := by
  have relative := isAbsolute_eq_false cut (by decide)
  rw [← Text.pieces_eq_splitOn] at cut
  obtain ⟨first, rfl⟩ := List.cons.inj cut
  simp [components, relative, first]

theorem components_plain {path : Path} (relative : path.isAbsolute = false)
    (plain : (path.bytes.splitOn slash).head? ≠ some [dot])
    : path.components = (path.bytes.splitOn slash).filterMap component? := by
  rw [← Text.pieces_eq_splitOn] at plain ⊢
  have notDot : (Text.pieces slash path.bytes).1 ≠ [dot] := by simpa using plain
  rw [List.filterMap_cons]
  simp only [components, relative, Bool.false_eq_true, if_false, if_neg notDot]
  cases component? (Text.pieces slash path.bytes).1 <;> rfl

/-- What a path starts with decides how it is read. -/
theorem absolute_or_here_or_plain (path : Path)
    : (∃ tail, path = ⟨slash :: tail⟩)
      ∨ (∃ later, path.bytes.splitOn slash = [dot] :: later)
      ∨ path.isAbsolute = false ∧ (path.bytes.splitOn slash).head? ≠ some [dot] := by
  cases absolute : path.isAbsolute with
  | true => exact .inl ((isAbsolute_iff path).mp absolute)
  | false =>
      obtain ⟨first, later, cut⟩ :=
        List.exists_cons_of_ne_nil (List.splitOn_ne_nil slash path.bytes)
      by_cases dotted : first = [dot]
      · exact .inr (.inl ⟨later, dotted ▸ cut⟩)
      · exact .inr (.inr ⟨rfl, by simpa [cut] using dotted⟩)

theorem regular_components (path : Path)
    : Regular path.components := by
  have whole (bytes : Bytes) (member : bytes ∈ path.bytes.splitOn slash) : slash ∉ bytes :=
    Text.not_mem_of_mem_splitOn member
  rcases path.absolute_or_here_or_plain with ⟨tail, rfl⟩ | ⟨later, cut⟩ | ⟨relative, plain⟩
  · rw [components_absolute]
    exact .rooted (inner_of_mem_filterMap fun _ => Text.not_mem_of_mem_splitOn)
  · rw [components_here cut]
    rw [cut, List.forall_mem_cons] at whole
    exact .here (inner_of_mem_filterMap whole.2)
  · rw [components_plain relative plain]
    exact .plain (inner_of_mem_filterMap whole)

theorem isAbsolute_iff_head? (path : Path)
    : path.isAbsolute = true ↔ path.components.head? = some .root := by
  rcases path.absolute_or_here_or_plain with ⟨tail, rfl⟩ | ⟨later, cut⟩ | ⟨relative, plain⟩
  · rw [components_absolute]
    exact iff_of_true rfl rfl
  · rw [components_here cut, isAbsolute_eq_false cut (by decide)]
    exact iff_of_false nofun nofun
  · rw [components_plain relative plain, relative]
    refine iff_of_false nofun fun first => ?_
    cases inner_of_mem_filterMap (fun _ => Text.not_mem_of_mem_splitOn) _
      (List.mem_of_mem_head? first)

-----------------------------------------------------------------------------------------
-- Written paths
-----------------------------------------------------------------------------------------

theorem splitOn_written {components : List Component} (some' : components ≠ [])
    (whole : ∀ component ∈ components, slash ∉ piece component)
    : (written components).splitOn slash = components.map piece := by
  refine List.splitOn_intercalate slash (fun bytes member => ?_) (by simpa using some')
  obtain ⟨component, from', rfl⟩ := List.mem_map.mp member
  exact whole component from'

theorem ofComponents_relative {components : List Component} (relative : .root ∉ components)
    : ofComponents components = ⟨written components⟩ := by
  unfold ofComponents
  split
  case h_1 => simp at relative
  case h_2 => rfl

/-- A path that is written from components is read as those. -/
theorem components_ofComponents {components : List Component} (regular : Regular components)
    : (ofComponents components).components = components := by
  cases regular with
  | plain all =>
      cases components with
      | nil => rfl
      | cons component rest =>
          have inner := all component List.mem_cons_self
          have notDot : piece component ≠ [dot] := by
            cases inner with
            | up => decide
            | name whole given named => exact named.1
          have cut := splitOn_written (List.cons_ne_nil component rest)
            fun component member => (not_mem_piece (all component member)).1
          rw [ofComponents_relative fun member => nomatch all _ member]
          refine (@components_plain ⟨written (component :: rest)⟩
            (isAbsolute_eq_false cut (not_mem_piece inner).2) ?_).trans ?_
          · rw [cut]
            simpa using notDot
          · rw [cut]
            exact filterMap_component?_piece all
  | @rooted inner all =>
      refine (components_absolute (written inner)).trans (congrArg (Component.root :: ·) ?_)
      cases inner with
      | nil => rfl
      | cons component rest =>
          rw [splitOn_written (List.cons_ne_nil _ _)
            fun component member => (not_mem_piece (all component member)).1]
          exact filterMap_component?_piece all
  | @here inner all =>
      have cut := splitOn_written (List.cons_ne_nil .here inner) fun component member => by
        rcases List.mem_cons.mp member with rfl | member
        · decide
        · exact (not_mem_piece (all component member)).1
      refine (@components_here ⟨written (.here :: inner)⟩ _ cut).trans ?_
      exact congrArg (Component.here :: ·) (filterMap_component?_piece all)

/-- A path that is written from the first components of another is not longer and has no other
bytes.
-/
theorem ofComponents_sublist {path : Path} {front : List Component}
    (start : front <+: path.components)
    : (ofComponents front).bytes.Sublist path.bytes := by
  have whole (bytes : Bytes) (member : bytes ∈ path.bytes.splitOn slash) : slash ∉ bytes :=
    Text.not_mem_of_mem_splitOn member
  have fewer (relative : .root ∉ path.components)
      (kept : (path.components.map piece).Sublist (path.bytes.splitOn slash))
      : (ofComponents front).bytes.Sublist path.bytes := by
    rw [ofComponents_relative fun member => relative (start.subset member)]
    have below := Text.intercalate_sublist [slash] ((start.sublist.map piece).trans kept)
    rwa [List.intercalate_splitOn] at below
  rcases path.absolute_or_here_or_plain with ⟨tail, rfl⟩ | ⟨later, cut⟩ | ⟨relative, plain⟩
  · rw [components_absolute] at start
    rcases List.prefix_cons_iff.mp start with rfl | ⟨kept, rfl, inside⟩
    · exact List.nil_sublist _
    · have below := Text.intercalate_sublist [slash] ((inside.sublist.map piece).trans
        (map_piece_sublist fun _ => Text.not_mem_of_mem_splitOn))
      rw [List.intercalate_splitOn] at below
      exact below.cons_cons slash
  · rw [cut, List.forall_mem_cons] at whole
    refine fewer ?_ ?_
    · rw [components_here cut, List.mem_cons, not_or]
      exact ⟨nofun, fun member => nomatch inner_of_mem_filterMap whole.2 _ member⟩
    · rw [components_here cut, cut]
      exact (map_piece_sublist whole.2).cons_cons [dot]
  · refine fewer ?_ ?_
    · rw [components_plain relative plain]
      exact fun member => nomatch inner_of_mem_filterMap whole _ member
    · rw [components_plain relative plain]
      exact map_piece_sublist whole

-----------------------------------------------------------------------------------------
-- Steps
-----------------------------------------------------------------------------------------

theorem steps_eq_map (path : Path)
    : path.steps = (path.bytes.splitOn slash).map Step.ofPiece := by
  rw [← Text.pieces_eq_splitOn]
  rfl

/-- A piece moves a walk as the component does that it is read as. -/
theorem moves_map_ofPiece (pieces : List Bytes)
    : Step.moves (pieces.map Step.ofPiece)
      = (pieces.filterMap component?).filterMap Component.step? := by
  induction pieces with
  | nil => rfl
  | cons bytes rest ih =>
      have step : (Step.ofPiece bytes = .stay ∧ component? bytes = none)
          ∨ Step.ofPiece bytes ≠ .stay
            ∧ (component? bytes).bind Component.step? = some (Step.ofPiece bytes) := by
        unfold Step.ofPiece component?
        split
        · exact .inl ⟨rfl, rfl⟩
        · split <;> exact .inr ⟨nofun, rfl⟩
      unfold Step.moves at ih ⊢
      rw [List.map_cons, List.filterMap_cons]
      rcases step with ⟨stays, unread⟩ | ⟨moves, read⟩
      · rw [List.filter_cons_of_neg (by simp [stays]), unread, ih]
      · obtain ⟨component, found, leads⟩ := Option.bind_eq_some_iff.mp read
        rw [List.filter_cons_of_pos (by simp [moves]), found, ih, List.filterMap_cons, leads]

/-- A walk along a path moves as its components say. -/
theorem moves_steps (path : Path)
    : Step.moves path.steps = path.components.filterMap Component.step? := by
  rw [steps_eq_map]
  rcases path.absolute_or_here_or_plain with ⟨tail, rfl⟩ | ⟨later, cut⟩ | ⟨relative, plain⟩
  · rw [components_absolute, List.filterMap_cons_none rfl, ← moves_map_ofPiece]
    rw [List.splitOn_cons_eq_if_modifyHead, if_pos (by simp)]
    rfl
  · rw [components_here cut, cut, List.filterMap_cons_none rfl, ← moves_map_ofPiece]
    rfl
  · rw [components_plain relative plain, moves_map_ofPiece]

-----------------------------------------------------------------------------------------
-- Names and parents
-----------------------------------------------------------------------------------------

theorem fileName?_of_components {path : Path} {front : List Component} {bytes : Bytes}
    (read : path.components = front ++ [.name bytes])
    : path.fileName? = some bytes := by
  rw [fileName?, read, List.getLast?_concat]

theorem fileName?_eq_some_iff {path : Path} {bytes : Bytes}
    : path.fileName? = some bytes ↔ ∃ front, path.components = front ++ [.name bytes] := by
  refine ⟨fun named => ?_, fun ⟨front, read⟩ => fileName?_of_components read⟩
  rw [← List.getLast?_eq_some_iff]
  unfold fileName? at named
  split at named
  case h_1 last =>
    obtain rfl := Option.some.inj named
    exact last
  case h_2 => cases named

theorem parent?_of_components {path : Path} {front : List Component} {bytes : Bytes}
    (read : path.components = front ++ [.name bytes])
    : path.parent? = some (ofComponents front)
      ∧ (ofComponents front).components = front := by
  have start : front <+: path.components := read ▸ List.prefix_append front _
  refine ⟨?_, components_ofComponents (path.regular_components.of_prefix start)⟩
  rw [parent?, read, List.getLast?_concat, List.dropLast_concat]

/-- Paths of the same name agree if and only if their parents are the same. -/
theorem agrees_iff_parent? {first second : Path} {bytes : Bytes}
    (left : first.fileName? = some bytes) (right : second.fileName? = some bytes)
    : first.agrees second = true ↔ first.parent? = second.parent? := by
  obtain ⟨front, read⟩ := fileName?_eq_some_iff.mp left
  obtain ⟨other, read'⟩ := fileName?_eq_some_iff.mp right
  obtain ⟨parent, whole⟩ := parent?_of_components read
  obtain ⟨parent', whole'⟩ := parent?_of_components read'
  rw [agrees, beq_iff_eq, read, read', parent, parent', Option.some.injEq,
    List.append_left_inj]
  exact ⟨congrArg ofComponents, fun same => by rw [← whole, same, whole']⟩

/-- A path ends in a name if and only if that is its last component. -/
theorem endsWith_ofText_iff {path : Path} {name : String}
    (proper : (Component.name (Bytes.ofText name)).Inner)
    : path.endsWith (ofText name) = true ↔ path.fileName? = some (Bytes.ofText name) := by
  have single : (ofText name).components = [.name (Bytes.ofText name)] := by
    have same : ofText name = ofComponents [.name (Bytes.ofText name)] := by
      simp [ofText, ofComponents, written, piece, List.intercalate]
    rw [same, components_ofComponents (.plain (by simpa using proper))]
  rw [endsWith, single, List.isSuffixOf_iff_suffix, fileName?_eq_some_iff]
  exact exists_congr fun front => eq_comm

end Path

end RouteDesk
