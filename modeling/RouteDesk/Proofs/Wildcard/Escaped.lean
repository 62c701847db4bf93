import RouteDesk.Wildcard.Search
import RouteDesk.Proofs.Path.Components

/-! Escaped text as a pattern. It is read without a fault, fits exactly the text that was escaped,
and is cut at the same slashes.
-/

namespace RouteDesk.Wildcard

open Pattern (escape escapeChar)

/-- What a pattern says about a character that was escaped. -/
def tokenOf (char : Char) : Token :=
  if char = '?' ∨ char = '*' ∨ char = '[' ∨ char = ']' then .oneOf false [(char, char)]
  else .char char

theorem readTokens_escapeChar (char : Char) (rest : List Char)
    : readTokens .outside (escapeChar char ++ rest)
      = (readTokens .outside rest).map (tokenOf char :: ·) := by
  unfold escapeChar tokenOf
  split
  case isTrue special => rcases special with rfl | rfl | rfl | rfl <;> rfl
  case isFalse plain =>
    simp only [not_or] at plain
    rw [List.singleton_append, readTokens, if_neg plain.1, if_neg plain.2.1, if_neg plain.2.2.1]

/-- Escaped text is read one character after the other. -/
theorem readTokens_escape (text : List Char)
    : readTokens .outside (escape text) = .ok (text.map tokenOf) := by
  induction text with
  | nil => rfl
  | cons char rest ih =>
      change readTokens .outside (escapeChar char ++ escape rest) = _
      rw [readTokens_escapeChar, ih]
      rfl

theorem ofText_escape (text : List Char)
    : Pattern.ofText (escape text) = .ok (.name (text.map tokenOf)) := by
  have single : escape text ≠ ['*', '*'] := by
    cases text with
    | nil => nofun
    | cons char rest =>
        change escapeChar char ++ escape rest ≠ _
        unfold escapeChar
        split
        case isTrue => nofun
        case isFalse plain =>
          rintro same
          exact plain (.inr (.inl (List.cons.inj same).1))
  rw [Pattern.ofText, if_neg single, readTokens_escape]
  rfl

theorem readPatterns_escape (texts : List (List Char))
    : readPatterns (texts.map escape) = .ok (texts.map fun text => .name (text.map tokenOf)) := by
  induction texts with
  | nil => rfl
  | cons text rest ih => rw [List.map_cons, readPatterns, ofText_escape, ih]; rfl

/-- The patterns of texts in a row stand in a row. -/
theorem readPatterns_append {texts more : List (List Char)} {patterns later : List Pattern}
    (read : readPatterns texts = .ok patterns) (read' : readPatterns more = .ok later)
    : readPatterns (texts ++ more) = .ok (patterns ++ later) := by
  induction texts generalizing patterns with
  | nil =>
      cases read
      exact read'
  | cons text rest ih =>
      rw [readPatterns] at read
      split at read
      case h_1 first others one all =>
        obtain rfl := Except.ok.inj read
        rw [List.cons_append, readPatterns, one, ih all]
        rfl
      all_goals cases read

theorem admits_tokenOf (char given : Char)
    : (tokenOf char).admits given = true ↔ given = char := by
  unfold tokenOf
  split
  · simp only [Token.admits, List.any_cons, List.any_nil, Bool.or_false, Bool.false_bne,
      Bool.and_eq_true, decide_eq_true_eq]
    exact ⟨fun both => Char.le_antisymm both.2 both.1,
      fun same => same ▸ ⟨Char.le_refl _, Char.le_refl _⟩⟩
  · rw [Token.admits, beq_iff_eq, eq_comm]

/-- Escaped text fits itself only, by induction on its characters. -/
theorem fits_escape (text name : List Char)
    : fits (text.map tokenOf) name = true ↔ name = text := by
  induction text generalizing name with
  | nil => simp [fits]
  | cons char rest ih =>
      have token : tokenOf char ≠ .anyText := by
        unfold tokenOf
        split <;> nofun
      rw [List.map_cons]
      cases name with
      | nil => simp [fits]
      | cons given later =>
          rw [fits]
          · rw [Bool.and_eq_true, admits_tokenOf, ih, List.cons.injEq]
          · exact token

theorem literal?_escape {text name : List Char} (literal : literal? (text.map tokenOf) = some name)
    : name = text := by
  induction text generalizing name with
  | nil => exact (Option.some.inj literal).symm
  | cons char rest ih =>
      rw [List.map_cons] at literal
      unfold tokenOf at literal
      split at literal
      · cases literal
      · rw [literal?] at literal
        obtain ⟨later, found, rfl⟩ := Option.map_eq_some_iff.mp literal
        rw [ih found]

theorem splitOn_escape (text : List Char)
    : (escape text).splitOn '/' = (text.splitOn '/').map escape := by
  refine @Text.splitOn_flatMap _ _ _ _ escapeChar '/' '/' rfl (fun char different => ?_) text
  unfold escapeChar
  split
  case isTrue special => rcases special with rfl | rfl | rfl | rfl <;> decide
  case isFalse => simpa using Ne.symm different

theorem escape_eq_nil {text : List Char} (empty : escape text = [])
    : text = [] := by
  cases text with
  | nil => rfl
  | cons char rest =>
      change escapeChar char ++ escape rest = [] at empty
      unfold escapeChar at empty
      split at empty <;> cases empty

/-- The components of an escaped text are its pieces, unless the last one is empty. -/
theorem components_escape {text : List Char} (ends : (text.splitOn '/').getLast? ≠ some [])
    : components (escape text) = (text.splitOn '/').map escape := by
  have pieces := (Text.pieces_eq_splitOn '/' (escape text)).trans (splitOn_escape text)
  have last : ((text.splitOn '/').map escape).getLast? ≠ some [] := by
    rw [List.getLast?_map]
    intro empty
    obtain ⟨piece, found, same⟩ := Option.map_eq_some_iff.mp empty
    exact ends (found.trans (congrArg some (escape_eq_nil same)))
  unfold components
  dsimp only
  rw [pieces, if_neg last]

theorem not_mem_escape {text : List Char} (whole : '/' ∉ text) : '/' ∉ escape text := by
  intro inside
  obtain ⟨char, among, same⟩ := List.mem_flatMap.mp inside
  have different : '/' ≠ char := fun slash => whole (slash ▸ among)
  unfold escapeChar at same
  split at same <;> simp [different] at same

/-- A search from the top goes along the patterns. -/
theorem search_of_read {tree : FileTree} {rest : List Char} {patterns : List Pattern}
    (read : readPatterns (components rest) = .ok patterns) (some' : patterns ≠ [])
    : search tree ('/' :: rest)
      = .ok (if ('/' :: rest).getLast? = some '/' then
            (below tree patterns (Path.ofText "/")).filter tree.isDirectory
          else below tree patterns (Path.ofText "/")) := by
  unfold search
  simp only [read, if_neg some']

/-- Any other search goes along the patterns from the origin. -/
theorem search_of_read_relative {tree : FileTree} {pattern : List Char} {patterns : List Pattern}
    (relative : pattern.head? ≠ some '/') (read : readPatterns (components pattern) = .ok patterns)
    (some' : patterns ≠ [])
    : search tree pattern
      = .ok (if pattern.getLast? = some '/' then
            (below tree patterns origin).filter tree.isDirectory
          else below tree patterns origin) := by
  unfold search
  split
  case h_1 rest start after same =>
    split at same
    case h_1 => exact absurd rfl relative
    case h_2 =>
      obtain ⟨rfl, rfl⟩ := Prod.mk.inj same
      simp only [read, if_neg some']

/-- A search for an escaped text goes along pieces of which the last one is that of the text. -/
theorem exists_below_of_search {tree : FileTree} {text name : List Char}
    (last : (text.splitOn '/').getLast? = some name) (given : name ≠ []) {fitting : List Path}
    (searched : search tree (escape text) = .ok fitting) {path : Path} (member : path ∈ fitting)
    : ∃ (texts : List (List Char)) (start : Path), texts.getLast? = some name
        ∧ path ∈ below tree (texts.map fun text => .name (text.map tokenOf)) start := by
  have read {rest : List Char} (ends : (rest.splitOn '/').getLast? = some name)
      : readPatterns (components (escape rest))
          = .ok ((rest.splitOn '/').map fun text => .name (text.map tokenOf)) := by
    rw [components_escape, readPatterns_escape]
    rw [ends]
    exact fun empty => given (Option.some.inj empty)
  have onward {only : Prop} [Decidable only] {texts : List (List Char)} {start : Path}
      (ends : texts.getLast? = some name)
      (inside : path ∈ if only then
          (below tree (texts.map fun text => .name (text.map tokenOf)) start).filter
            tree.isDirectory
        else below tree (texts.map fun text => .name (text.map tokenOf)) start)
      : ∃ (texts : List (List Char)) (start : Path), texts.getLast? = some name
        ∧ path ∈ below tree (texts.map fun text => .name (text.map tokenOf)) start := by
    refine ⟨texts, start, ends, ?_⟩
    split at inside
    · exact (List.mem_filter.mp inside).1
    · exact inside
  by_cases absolute : text.head? = some '/'
  · obtain ⟨rest, rfl⟩ := List.head?_eq_some_iff.mp absolute
    have ends : (rest.splitOn '/').getLast? = some name := by
      rwa [← List.nil_append ('/' :: rest), List.splitOn_append_cons_self,
        List.getLast?_append_of_ne_nil _ (List.splitOn_ne_nil _ _)] at last
    have top : escape ('/' :: rest) = '/' :: escape rest := rfl
    rw [top, search_of_read (read ends) (by simp [List.splitOn_ne_nil])] at searched
    obtain rfl := Except.ok.inj searched
    exact onward ends member
  · have relative : (escape text).head? ≠ some '/' := by
      cases text with
      | nil => nofun
      | cons char rest =>
          change (escapeChar char ++ escape rest).head? ≠ _
          unfold escapeChar
          split
          · nofun
          · simpa using absolute
    rw [search_of_read_relative relative (read last) (by simp [List.splitOn_ne_nil])] at searched
    obtain rfl := Except.ok.inj searched
    exact onward last member

end RouteDesk.Wildcard
