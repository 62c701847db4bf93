import RouteDesk.Proofs.Json.Spacing.Words

/-! Documents with blanks between their tokens. Strings have no room for blanks, containers have it
around every byte of their own, and so a document is read the same whatever blanks there are.
-/

namespace RouteDesk.Json

namespace Reading

variable {α β : Type}

-----------------------------------------------------------------------------------------
-- Strings
-----------------------------------------------------------------------------------------

theorem follows_takeOr {spot : Spot} (inside : spot.Inside) (refusal : Refusal)
    : Follows (Spaced spot) (takeOr refusal) (takeOr refusal)
        fun value => Spaced (spot.after value) := by
  rintro ⟨feed, taken, peeked⟩ ⟨feed', taken', peeked'⟩ related answer next reached
  change Spaced spot feed feed' at related
  rcases related.inside_cases inside with ⟨value, rest, other, rfl, rfl, later⟩ | rfl | rfl
  · obtain ⟨rfl, rfl⟩ := EStateM.Result.ok.inj reached
    exact ⟨_, rfl, later⟩
  · cases reached
  · cases reached

/-- Reading a byte that has to be a hexadecimal digit, so it does not end the string. -/
theorem Follows.takeOr_hex {refusal : Refusal} {following : UInt8 → Reading β}
    {after : β → Feed → Feed → Prop}
    (goesOn : ∀ value, Follows (Spaced .string) (following value) (following value) after)
    (stops : ∀ value, hexValue? value = none → Yields (following value) fun _ => False)
    : Follows (Spaced .string) (takeOr refusal >>= following) (takeOr refusal >>= following)
        after := by
  refine .bind (follows_takeOr (.inl rfl) refusal) fun value => ?_
  cases digit : hexValue? value with
  | none => exact .never (stops value digit)
  | some number =>
      have stays : Spot.string.after value = .string := by
        refine Spot.after_string_other ?_ ?_ <;> rintro rfl <;> cases digit
      rw [stays]
      exact goesOn value

theorem follows_hexUnit
    : Follows (Spaced .string) hexUnit hexUnit fun _ => Spaced .string := by
  refine .takeOr_hex (fun first => .takeOr_hex (fun second => .takeOr_hex (fun third =>
    .takeOr_hex (fun fourth => ?_) fun fourth none => ?_) fun third none => ?_)
    fun second none => ?_) fun first none => ?_
  · split
    case h_1 => exact .pure fun _ _ => id
    case h_2 => exact .refuse
  · split
    case h_1 => cases none.symm.trans ‹hexValue? fourth = some _›
    case h_2 => exact .refuse
  · refine .andThen fun fourth => ?_
    split
    case h_1 => cases none.symm.trans ‹hexValue? third = some _›
    case h_2 => exact .refuse
  · refine .andThen fun third => .andThen fun fourth => ?_
    split
    case h_1 => cases none.symm.trans ‹hexValue? second = some _›
    case h_2 => exact .refuse
  · refine .andThen fun second => .andThen fun third => .andThen fun fourth => ?_
    split
    case h_1 => cases none.symm.trans ‹hexValue? first = some _›
    case h_2 => exact .refuse

theorem follows_pairByte {spot : Spot} (inside : spot.Inside) (expected : UInt8)
    : Follows (Spaced spot) (pairByte expected) (pairByte expected)
        fun _ => Spaced (spot.after expected) := by
  rintro ⟨feed, taken, peeked⟩ ⟨feed', taken', peeked'⟩ related answer last reached
  change Spaced spot feed feed' at related
  rcases related.inside_cases inside with ⟨value, rest, other, rfl, rfl, later⟩ | rfl | rfl
  · change (if value = expected then pure () else refuse .unfinishedPair : Reading Unit)
      ⟨rest, taken + 1, false⟩ = _ at reached
    change ∃ last, (if value = expected then pure () else refuse .unfinishedPair : Reading Unit)
      ⟨other, taken' + 1, false⟩ = _ ∧ _
    split at reached
    case isTrue same =>
      obtain ⟨-, rfl⟩ := EStateM.Result.ok.inj reached
      subst same
      refine ⟨⟨other, taken' + 1, false⟩, ?_, later⟩
      rw [if_pos rfl]
      rfl
    case isFalse => cases reached
  · cases reached
  · cases reached

theorem follows_codePoint
    : Follows (Spaced .string) codePoint codePoint fun _ => Spaced .string := by
  refine .bind follows_hexUnit fun unit => ?_
  split
  case isTrue => exact .refuse
  case isFalse =>
    split
    case isTrue => exact .pure fun _ _ => id
    case isFalse =>
      refine .bind (follows_pairByte (.inl rfl) 0x5C) fun _ => ?_
      refine .bind (follows_pairByte (.inr rfl) 0x75) fun _ => ?_
      refine .bind follows_hexUnit fun low => ?_
      split
      case isTrue => exact .refuse
      case isFalse => exact .pure fun _ _ => id

theorem follows_escape
    : Follows (Spaced .escape) escape escape fun _ => Spaced .string := by
  refine .bind (follows_takeOr (.inr rfl) _) fun value => ?_
  change Follows (Spaced .string) _ _ _
  split
  case h_9 => exact follows_codePoint
  case h_10 => exact .refuse
  all_goals exact .pure fun _ _ => id

/-- Strings have no room for blanks, by induction on the steps. -/
theorem follows_stringBody {limit limit' : Nat} (enough : limit ≤ limit') (front : Bytes)
    : Follows (Spaced .string) (stringBody limit front) (stringBody limit' front)
        fun _ => Spaced .between := by
  induction limit generalizing limit' front with
  | zero => exact .refuse
  | succ limit ih =>
      obtain ⟨limit', rfl⟩ := Nat.exists_eq_succ_of_ne_zero (Nat.ne_zero_of_lt enough)
      have later := Nat.le_of_succ_le_succ enough
      refine .bind (follows_takeOr (.inl rfl) _) fun value => ?_
      split
      case isTrue quote =>
        subst quote
        exact .pure fun _ _ => id
      case isFalse notQuote =>
        split
        case isTrue backslash =>
          subst backslash
          exact .bind follows_escape fun meant => ih later _
        case isFalse notBackslash =>
          split
          case isTrue => exact .refuse
          case isFalse =>
            rw [Spot.after_string_other notQuote notBackslash]
            exact ih later _

theorem follows_string
    : Follows (Spaced .string) string string fun _ => Spaced .between := by
  refine .bound fun limit limit' enough => .bind (follows_stringBody enough []) fun bytes => ?_
  split
  case h_1 => exact .pure fun _ _ => id
  case h_2 => exact .refuse

-----------------------------------------------------------------------------------------
-- Lists and objects
-----------------------------------------------------------------------------------------

/-- What is read between tokens on both sides, up to a place between tokens. -/
def FollowsBetween (action : Reading α) : Prop :=
  Follows (Spaced .between) action action fun _ => Spaced .between

theorem follows_items {item : Reading Json} (each : FollowsBetween item) {limit limit' : Nat}
    (enough : limit ≤ limit') (front : List Json)
    : Follows (Spaced .between) (items item limit front) (items item limit' front)
        fun _ => Faces .between (some 0x5D) := by
  induction limit generalizing limit' front with
  | zero => exact .refuse
  | succ limit ih =>
      obtain ⟨limit', rfl⟩ := Nat.exists_eq_succ_of_ne_zero (Nat.ne_zero_of_lt enough)
      have hnext (value : UInt8) : Follows (Faces .between (some value))
          (do let value ← item; items item limit (value :: front))
          (do let value ← item; items item limit' (value :: front))
          fun _ => Faces .between (some 0x5D) := by
        refine .bind (each.restrict fun _ _ => Faces.spaced) fun value => ?_
        exact ih (Nat.le_of_succ_le_succ enough) _
      refine .bind follows_peekToken fun next => ?_
      split
      case h_1 => exact .refuse
      case h_2 => exact .pure fun _ _ => id
      case h_3 next _ =>
        split
        case isTrue => exact hnext next
        case isFalse =>
          split
          case isTrue comma =>
            subst comma
            refine .bind (follows_skip _ _) fun _ => .bind follows_peekToken fun next => ?_
            split
            case h_1 => exact .refuse
            case h_2 => exact .refuse
            case h_3 => exact hnext _
          case isFalse => exact .refuse

theorem follows_keyStart (next : Option UInt8)
    : Follows (Faces .between next) (keyStart next) (keyStart next)
        fun _ => Faces .between (some 0x22) := by
  unfold keyStart
  split
  case h_1 => exact .refuse
  case h_2 => exact .pure fun _ _ => id
  case h_3 => exact .refuse
  case h_4 => exact .refuse

theorem follows_field {value : Reading Json} (each : FollowsBetween value)
    : Follows (Faces .between (some 0x22)) (field value) (field value)
        fun _ => Spaced .between := by
  refine .bind (follows_skip _ _) fun _ => .bind follows_string fun name => ?_
  refine .bind follows_peekToken fun next => ?_
  split
  case h_1 => exact .refuse
  case h_2 => exact .bind (follows_skip _ _) fun _ => .bind each fun held => .pure fun _ _ => id
  case h_3 => exact .refuse

theorem follows_fields {value : Reading Json} (each : FollowsBetween value) {limit limit' : Nat}
    (enough : limit ≤ limit') (first : Bool) (held : Fields)
    : Follows (Spaced .between) (fields value limit first held) (fields value limit' first held)
        fun _ => Faces .between (some 0x7D) := by
  induction limit generalizing limit' first held with
  | zero => exact .refuse
  | succ limit ih =>
      obtain ⟨limit', rfl⟩ := Nat.exists_eq_succ_of_ne_zero (Nat.ne_zero_of_lt enough)
      have hnext : Follows (Faces .between (some 0x22))
          (field value >>= fun read => fields value limit false (Fields.put read.1 read.2 held))
          (field value >>= fun read =>
            fields value limit' false (Fields.put read.1 read.2 held))
          fun _ => Faces .between (some 0x7D) := by
        refine .bind (follows_field each) fun read => ?_
        exact ih (Nat.le_of_succ_le_succ enough) _ _
      refine .bind follows_peekToken fun next => ?_
      split
      case h_1 => exact .refuse
      case h_2 => exact .pure fun _ _ => id
      case h_3 next _ =>
        split
        case isTrue => exact .bind (follows_keyStart _) fun _ => hnext
        case isFalse =>
          split
          case isTrue comma =>
            subst comma
            refine .bind (follows_skip _ _) fun _ => .bind follows_peekToken fun next => ?_
            exact .bind (follows_keyStart _) fun _ => hnext
          case isFalse => exact .refuse

/-- The end of a container is its closing byte on both sides. -/
theorem follows_enclosed {inside inside' : Reading α} {ending : Reading Unit} {byte : UInt8}
    (follows : Follows (Spaced .between) inside inside' fun _ => Faces .between (some byte))
    (closes : Closes ending byte) (stands : Spot.between.after byte = .between)
    : Follows (Spaced .between) (enclosed inside ending) (enclosed inside' ending)
        fun _ => Spaced .between := by
  intro cursor other related value last reached
  unfold enclosed at reached ⊢
  dsimp only at reached
  cases found : inside cursor with
  | error fault next =>
      rw [found] at reached
      dsimp only at reached
      split at reached <;> cases reached
  | ok answer next =>
      -- The inside stopped at the closing byte on both sides, so both ends are read at once.
      obtain ⟨next', found', left, right, ahead, ahead', later⟩ := follows related found
      obtain ⟨feed, taken, peeked⟩ := next
      obtain ⟨feed', taken', peeked'⟩ := next'
      obtain rfl : feed = .byte byte left := ahead
      obtain rfl : feed' = .byte byte right := ahead'
      simp only [found, closes left] at reached
      obtain ⟨rfl, rfl⟩ := EStateM.Result.ok.inj reached
      refine ⟨⟨right, taken' + 1, false⟩, ?_, stands ▸ later⟩
      simp only [found', closes right]

/-- A literal, from its first letter. -/
theorem follows_literal (first : UInt8) (begins : isWordByte first = true) (letters : Bytes)
    (belong : letters.all isWordByte = true) (document : Json)
    : Follows (Faces .between (some first)) (do skip; word letters; pure document)
        (do skip; word letters; pure document) fun _ => Spaced .between := by
  have hfirst := follows_skip .between first
  rw [(Spot.after_word begins).1] at hfirst
  refine .bind hfirst fun _ => .bind (follows_word ?_) fun _ => .pure fun _ _ => ?_
  · exact List.all_eq_true.mp belong
  · exact Spaced.between_of_word

theorem followsBetween_valueWith {inner : Option (Reading Json)}
    (each : ∀ item, inner = some item → FollowsBetween item)
    : FollowsBetween (valueWith inner) := by
  refine .bind follows_peekToken fun next => ?_
  split
  case h_1 => exact .refuse
  case h_2 =>
    exact follows_literal 0x6E rfl [0x75, 0x6C, 0x6C] rfl _
  case h_3 =>
    exact follows_literal 0x74 rfl [0x72, 0x75, 0x65] rfl _
  case h_4 =>
    exact follows_literal 0x66 rfl [0x61, 0x6C, 0x73, 0x65] rfl _
  case h_5 =>
    refine .bind (follows_skip _ _) fun _ => ?_
    exact (follows_number starts_word false).weaken fun _ _ _ => Spaced.between_of_word
  case h_6 =>
    exact .bind (follows_skip _ _) fun _ => .bind follows_string fun _ => .pure fun _ _ => id
  case h_7 =>
    split
    case h_1 => exact .refuse
    case h_2 item =>
      refine .bind (follows_skip _ _) fun _ => .bound fun limit limit' enough => ?_
      refine .bind ?_ fun values => .pure fun _ _ => id
      exact follows_enclosed (follows_items (each item rfl) enough []) (fun _ _ _ => rfl) rfl
  case h_8 =>
    split
    case h_1 => exact .refuse
    case h_2 value =>
      refine .bind (follows_skip _ _) fun _ => .bound fun limit limit' enough => ?_
      refine .bind ?_ fun read => .pure fun _ _ => id
      exact follows_enclosed (follows_fields (each value rfl) enough true [])
        (fun _ _ _ => rfl) rfl
  case h_9 =>
    split
    case isTrue =>
      exact (follows_number starts_faces true).weaken fun _ _ _ => Spaced.between_of_word
    case isFalse => exact .refuse

theorem followsBetween_value (depth : Nat)
    : FollowsBetween (value depth) := by
  induction depth with
  | zero => exact followsBetween_valueWith nofun
  | succ depth ih => exact followsBetween_valueWith fun item same => Option.some.inj same ▸ ih

theorem follows_document
    : Follows (Spaced .between) document document
        fun _ feed other => feed = .done ∧ other = .done := by
  refine .bind (followsBetween_value _) fun held => .bind follows_peekToken fun next => ?_
  split
  case h_1 => exact .pure fun _ _ => id
  case h_2 => exact .refuse

end Reading

/-- A document is the same whatever blanks there are between its tokens. -/
theorem ofFeed_of_spaced {first second : Feed} {document : Json}
    (spaced : Spaced .between first second) (read : ofFeed first = .ok document)
    : ofFeed second = .ok document := by
  unfold ofFeed at read ⊢
  split at read
  case h_2 => cases read
  case h_1 value next found =>
    obtain rfl := Except.ok.inj read
    have related : Spaced .between (Cursor.mk first 0 false).feed (Cursor.mk second 0 false).feed :=
      spaced
    obtain ⟨last, found', -⟩ := Reading.follows_document related found
    rw [found']

end RouteDesk.Json
