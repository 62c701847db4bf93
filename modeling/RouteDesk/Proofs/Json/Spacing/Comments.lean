import RouteDesk.Proofs.Json.Legible
import RouteDesk.Proofs.Json.Spacing.Documents

/-! Comments between tokens. A comment is shown to the reader as blanks, and comments may stand only
where blanks may, so a document with comments is read like the document without them.
-/

namespace RouteDesk.Json

open Comments

/-- How the blanking of comments stands there. -/
def Spot.mode : Spot → Mode
  | .between | .word => .plain
  | .string => .string
  | .escape => .escape

/-- The text is the plain one with comments put in, and blanks, before, between and after its
tokens. The plain one has no comments: outside of strings nothing in it begins one. A comment to
the end of its line is followed by the line break, which may be one of the plain text, or by
nothing.
-/
inductive Interspersed : Spot → Bytes → Bytes → Prop
  | done {spot} : Interspersed spot [] []
  | byte {spot value plain text} (own : spot.Inside ∨ value ≠ 0x2F ∧ value ≠ 0x23)
    (rest : Interspersed (spot.after value) plain text)
    : Interspersed spot (value :: plain) (value :: text)
  | blank {spot value plain text} (white : Reading.isBlank value = true)
    (free : spot.Free plain.head?) (rest : Interspersed spot plain text)
    : Interspersed spot plain (value :: text)
  | block {spot body plain text} (free : spot.Free plain.head?)
    (closed : ¬[0x2A, 0x2F] <:+: body) (rest : Interspersed spot plain text)
    : Interspersed spot plain ([0x2F, 0x2A] ++ body ++ [0x2A, 0x2F] ++ text)
  | line {spot mark body plain text} (free : spot.Free plain.head?)
    (begins : mark = [0x2F, 0x2F] ∨ mark = [0x23]) (single : 0x0A ∉ body)
    (ends : text.head? = none ∨ text.head? = some 0x0A) (rest : Interspersed spot plain text)
    : Interspersed spot plain (mark ++ body ++ text)

/-- Where the byte after these ones stands. -/
def Spot.along (spot : Spot) (bytes : Bytes) : Spot :=
  bytes.foldl Spot.after spot

/-- Whether nothing in the bytes begins a comment. -/
def Spot.owns : Spot → Bytes → Bool
  | _, [] => true
  | spot, value :: rest =>
    (decide spot.Inside || value != 0x2F && value != 0x23) && (spot.after value).owns rest

/-- A stretch that both texts have, by induction on it. -/
theorem Interspersed.stretch {spot : Spot} {plain text : Bytes} (bytes : Bytes)
    (own : spot.owns bytes = true) (rest : Interspersed (spot.along bytes) plain text)
    : Interspersed spot (bytes ++ plain) (bytes ++ text) := by
  induction bytes generalizing spot with
  | nil => exact rest
  | cons value bytes ih =>
      simp only [Spot.owns, Bool.and_eq_true, Bool.or_eq_true, decide_eq_true_eq, bne_iff_ne] at own
      exact .byte own.1 (ih own.2 rest)

-----------------------------------------------------------------------------------------
-- What is shown of a byte and of a comment
-----------------------------------------------------------------------------------------

theorem Spot.mode_of_free {spot : Spot} {next : Option UInt8} (free : spot.Free next)
    : spot.mode = .plain := by
  rcases free with rfl | ⟨rfl, -⟩ <;> rfl

/-- A byte that begins no comment is shown as it is, and the blanking goes on as the spots do. -/
theorem step_own {spot : Spot} {value : UInt8}
    (own : spot.Inside ∨ value ≠ 0x2F ∧ value ≠ 0x23)
    : spot.mode.step value = some (value, (spot.after value).mode) := by
  have hplain (spot : Spot) (outside : spot = .between ∨ spot = .word)
      (own : value ≠ 0x2F ∧ value ≠ 0x23)
      : Mode.plain.step value = some (value, (spot.after value).mode) := by
    by_cases quote : value = 0x22
    case pos => rcases outside with rfl | rfl <;> subst quote <;> rfl
    case neg =>
      have stays : (spot.after value).mode = .plain := by
        rcases outside with rfl | rfl <;> rw [Spot.after, if_neg quote] <;> split <;> rfl
      rw [stays]
      exact step_plain quote own.1 own.2
  cases spot with
  | between => exact hplain _ (.inl rfl) (own.resolve_left (by decide))
  | word => exact hplain _ (.inr rfl) (own.resolve_left (by decide))
  | string =>
      by_cases quote : value = 0x22
      case pos => subst quote; rfl
      case neg =>
        by_cases backslash : value = 0x5C
        case pos => subst backslash; rfl
        case neg =>
          rw [Spot.after_string_other quote backslash]
          exact step_string quote backslash
  | escape => rfl

theorem blankFrom_own {spot : Spot} {value : UInt8} {rest : Bytes}
    (own : spot.Inside ∨ value ≠ 0x2F ∧ value ≠ 0x23)
    : blankFrom spot.mode (value :: rest)
      = .byte value (blankFrom (spot.after value).mode rest) := by
  rw [blankFrom, step_own own]

/-- A byte that belongs to no number and no literal begins no comment. -/
theorem own_of_closed {value : UInt8} (closed : isWordByte value = false)
    : value ≠ 0x2F ∧ value ≠ 0x23 := by
  constructor <;> rintro rfl <;> cases closed

/-- Whether blanks may stand there is the same for the plain text and for what is shown of it. -/
theorem free_blankFrom {spot : Spot} {plain : Bytes} (free : spot.Free plain.head?)
    : spot.Free (blankFrom spot.mode plain).head? := by
  rcases free with rfl | ⟨rfl, closed⟩
  · exact .inl rfl
  · refine .inr ⟨rfl, ?_⟩
    cases plain with
    | nil => nofun
    | cons value rest =>
        rw [blankFrom_own (.inr (own_of_closed (closed value rfl)))]
        exact closed

/-- The feed with blanks in front of it. -/
def Feed.indented : Nat → Feed → Feed
  | 0, feed => feed
  | count + 1, feed => .byte space (indented count feed)

theorem isBlank_space : Reading.isBlank space = true := by
  decide

theorem Spaced.indented {spot : Spot} {first second : Feed} (free : spot.Free first.head?)
    (later : Spaced spot first second) (count : Nat)
    : Spaced spot first (second.indented count) := by
  induction count with
  | zero => exact later
  | succ count ih => exact .blank isBlank_space free ih

section Shown

variable {text : Bytes}

/-- The rest of a block comment is shown as blanks, by induction on what is inside. After a star the
comment would be over at a slash, so there the inside must not begin with one.
-/
theorem blankFrom_block {body : Bytes} (closed : ¬[0x2A, 0x2F] <:+: body)
    : blankFrom .block (body ++ [0x2A, 0x2F] ++ text) = (blank text).indented (body.length + 2)
      ∧ (body.head? ≠ some 0x2F →
          blankFrom .star (body ++ [0x2A, 0x2F] ++ text)
            = (blank text).indented (body.length + 2)) := by
  induction body with
  | nil => exact ⟨rfl, fun _ => rfl⟩
  | cons value body ih =>
      obtain ⟨inBlock, inStar⟩ := ih fun inside => closed (List.infix_cons inside)
      rw [List.cons_append, List.cons_append]
      by_cases star : value = 0x2A
      case pos =>
        subst star
        have notSlash : body.head? ≠ some 0x2F := by
          intro slash
          cases body with
          | nil => cases slash
          | cons next rest =>
              obtain rfl := Option.some.inj slash
              exact closed ⟨[], rest, rfl⟩
        exact ⟨congrArg (Feed.byte space) (inStar notSlash),
          fun _ => congrArg (Feed.byte space) (inStar notSlash)⟩
      case neg =>
        have stepBlock : Mode.block.step value = some (space, .block) := by
          unfold Mode.step
          split <;> simp_all
        refine ⟨?_, fun notSlash => ?_⟩
        · rw [blankFrom, stepBlock]
          exact congrArg (Feed.byte space) inBlock
        · have stepStar : Mode.star.step value = some (space, .block) := by
            unfold Mode.step
            split <;> simp_all
          rw [blankFrom, stepStar]
          exact congrArg (Feed.byte space) inBlock

/-- A block comment is shown as blanks. -/
theorem blank_block {body : Bytes} (closed : ¬[0x2A, 0x2F] <:+: body)
    : blank ([0x2F, 0x2A] ++ body ++ [0x2A, 0x2F] ++ text)
      = (blank text).indented (body.length + 4) :=
  congrArg (Feed.byte space) (congrArg (Feed.byte space) (blankFrom_block closed).1)

/-- The rest of a comment to the end of its line is shown as blanks, by induction on what is inside.
-/
theorem blankFrom_line {body : Bytes} (single : 0x0A ∉ body)
    (ends : text.head? = none ∨ text.head? = some 0x0A)
    : blankFrom .line (body ++ text) = (blank text).indented body.length := by
  induction body with
  | nil =>
      cases text with
      | nil => rfl
      | cons value rest =>
          rcases ends with none | lineBreak
          · cases none
          · obtain rfl := Option.some.inj lineBreak
            rfl
  | cons value body ih =>
      rw [List.mem_cons, not_or] at single
      obtain ⟨other, single⟩ := single
      have stepLine : Mode.line.step value = some (space, .line) := by
        unfold Mode.step
        split <;> simp_all
      rw [List.cons_append, blankFrom, stepLine]
      exact congrArg (Feed.byte space) (ih single)

/-- A comment to the end of its line is shown as blanks. -/
theorem blank_line {mark body : Bytes} (begins : mark = [0x2F, 0x2F] ∨ mark = [0x23])
    (single : 0x0A ∉ body) (ends : text.head? = none ∨ text.head? = some 0x0A)
    : blank (mark ++ body ++ text) = (blank text).indented (body.length + mark.length) := by
  have inside := blankFrom_line single ends
  rcases begins with rfl | rfl
  · exact congrArg (Feed.byte space) (congrArg (Feed.byte space) inside)
  · exact congrArg (Feed.byte space) inside

end Shown

-----------------------------------------------------------------------------------------
-- Documents with comments
-----------------------------------------------------------------------------------------

/-- What is shown of a text with comments is the plain text with blanks put in, by induction on
what was put in.
-/
theorem spaced_of_interspersed {spot : Spot} {plain text : Bytes}
    (inserted : Interspersed spot plain text)
    : Spaced spot (blankFrom spot.mode plain) (blankFrom spot.mode text) := by
  induction inserted with
  | @done spot =>
      cases spot with
      | between => exact .done (by decide)
      | word => exact .done (by decide)
      | string => exact .ended (by decide) (.inr rfl) (.inr rfl)
      | escape => exact .ended (by decide) (.inr rfl) (.inr rfl)
  | byte own rest ih =>
      rw [blankFrom_own own, blankFrom_own own]
      exact .byte ih
  | @blank spot value plain text white free rest ih =>
      have own := own_of_closed (not_isWordByte_of_isBlank white)
      have shown : blankFrom .plain (value :: text) = .byte value (blankFrom .plain text) := by
        have shown := @blankFrom_own .between value text (.inr own)
        rwa [Spot.after_blank white] at shown
      have free' := free_blankFrom free
      rw [Spot.mode_of_free free] at ih free' ⊢
      rw [shown]
      exact .blank white free' ih
  | @block spot body plain text free closed rest ih =>
      have free' := free_blankFrom free
      rw [Spot.mode_of_free free] at ih free' ⊢
      rw [← blank, ← blank, blank_block closed]
      exact ih.indented free' _
  | @line spot mark body plain text free begins single ends rest ih =>
      have free' := free_blankFrom free
      rw [Spot.mode_of_free free] at ih free' ⊢
      rw [← blank, ← blank, blank_line begins single ends]
      exact ih.indented free' _

/-- Nothing of a plain text is altered, unless it is over within a string. -/
theorem spaced_plain {spot : Spot} {plain text : Bytes} (inserted : Interspersed spot plain text)
    : Spaced spot (blankFrom spot.mode plain) (Feed.ofBytes plain) := by
  induction inserted with
  | @done spot =>
      cases spot with
      | between => exact .done (by decide)
      | word => exact .done (by decide)
      | string => exact .ended (by decide) (.inr rfl) (.inl rfl)
      | escape => exact .ended (by decide) (.inr rfl) (.inl rfl)
  | byte own rest ih =>
      rw [blankFrom_own own]
      exact .byte ih
  | blank white free rest ih => exact ih
  | block free closed rest ih => exact ih
  | line free begins single ends rest ih => exact ih

/-- A text with comments between its tokens holds the document that the plain text holds, and that
is the document that a reader makes of the plain text who knows no comments.
-/
theorem ofCommented_of_interspersed {plain text : Bytes} {document : Json}
    (inserted : Interspersed .between plain text) (read : ofCommented plain = .ok document)
    : ofFeed (Feed.ofBytes plain) = .ok document ∧ ofCommented text = .ok document :=
  ⟨ofFeed_of_spaced (spaced_plain inserted) read,
    ofFeed_of_spaced (spaced_of_interspersed inserted) read⟩

end RouteDesk.Json
