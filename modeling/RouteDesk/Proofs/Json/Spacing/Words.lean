import RouteDesk.Proofs.Json.Spacing.Basic

/-! Literals and numbers with blanks behind them. A number ends at the first byte that does not
belong to it; with more blanks that byte may be another one, but it tells the reader the same.
-/

namespace RouteDesk.Json.Reading

variable {α β : Type} {before : Feed → Feed → Prop}

-----------------------------------------------------------------------------------------
-- Literals
-----------------------------------------------------------------------------------------

/-- What is related goes on with a number or a literal on both sides, if it does on the first. -/
def Starts (before : Feed → Feed → Prop) : Prop :=
  ∀ ⦃value rest second⦄, before (.byte value rest) second → isWordByte value = true →
    ∃ other, second = .byte value other ∧ Spaced .word rest other

theorem starts_word
    : Starts (Spaced .word) := by
  intro value rest second spaced belongs
  rcases spaced.word_cases with ⟨_, _, other, same, rfl, -, later⟩ | ⟨broken, -⟩
  · obtain ⟨rfl, rfl⟩ := Feed.byte.inj same
    exact ⟨other, rfl, later⟩
  · rcases broken with ended | ⟨_, _, same, closed⟩
    · cases ended
    · obtain ⟨rfl, rfl⟩ := Feed.byte.inj same
      rw [belongs] at closed
      cases closed

theorem starts_faces {value : UInt8}
    : Starts (Faces .between (some value)) := by
  rintro _ _ _ ⟨rest, other, same, rfl, later⟩ belongs
  obtain ⟨rfl, rfl⟩ := Feed.byte.inj same
  rw [(Spot.after_word belongs).1] at later
  exact ⟨other, rfl, later⟩

/-- Reading one more byte, which has to belong to the number or literal. -/
theorem Follows.takeOr_word {refusal : Refusal} {following : UInt8 → Reading β}
    {after : β → Feed → Feed → Prop} (starts : Starts before)
    (goesOn : ∀ value, Follows (Spaced .word) (following value) (following value) after)
    (stops : ∀ value, isWordByte value = false → Yields (following value) fun _ => False)
    : Follows before (takeOr refusal >>= following) (takeOr refusal >>= following) after := by
  rintro ⟨feed, taken, peeked⟩ ⟨feed', taken', peeked'⟩ related answer next reached
  cases feed with
  | done => cases reached
  | cut => cases reached
  | fault rest => cases reached
  | byte value rest =>
      change following value ⟨rest, taken + 1, false⟩ = _ at reached
      cases belongs : isWordByte value with
      | false => exact (stops value belongs reached).elim
      | true =>
          obtain ⟨other, same, later⟩ := starts related belongs
          obtain rfl : feed' = .byte value other := same
          exact goesOn value later reached

/-- Looking at the next byte, which need not belong to the number or literal. What is seen may
differ when it does not, but then it is not told apart from the end.
-/
theorem Follows.peek_word {following : Option UInt8 → Reading β}
    {after : β → Feed → Feed → Prop} (otherwise : Reading β)
    (goesOn : ∀ value, isWordByte value = true →
      Follows (Faces .word (some value)) (following (some value)) (following (some value)) after)
    (closing : ∀ seen : Option UInt8, (∀ value ∈ seen, isWordByte value = false) →
      following seen = otherwise)
    (breaks : Follows (Spaced .word) otherwise otherwise after)
    : Follows (Spaced .word) (peek >>= following) (peek >>= following) after := by
  rintro ⟨feed, taken, peeked⟩ ⟨feed', taken', peeked'⟩ related answer next reached
  change Spaced .word feed feed' at related
  rcases related.word_cases with ⟨value, rest, other, rfl, rfl, belongs, later⟩ | ⟨left, right⟩
  · refine goesOn value belongs ⟨rest, other, rfl, rfl, ?_⟩ reached
    rw [(Spot.after_word belongs).2]
    exact later
  · -- The bytes that are seen may differ here, and one side may see the end of the text.
    have hpeek {feed : Feed} (broken : feed.AtBreak) (taken : Nat) (peeked : Bool)
        : ∃ looked, (peek >>= following) ⟨feed, taken, peeked⟩
            = otherwise ⟨feed, taken, looked⟩ := by
      rcases broken with rfl | ⟨value, rest, rfl, closed⟩
      · exact ⟨false, congrFun (closing none nofun) _⟩
      · exact ⟨true, congrFun (closing (some value) fun _ same => Option.some.inj same ▸ closed) _⟩
    obtain ⟨looked, found⟩ := hpeek left taken peeked
    obtain ⟨looked', found'⟩ := hpeek right taken' peeked'
    rw [found] at reached
    rw [found']
    exact breaks related reached

theorem follows_word {expected : Bytes} (letters : ∀ value ∈ expected, isWordByte value = true)
    : Follows (Spaced .word) (word expected) (word expected) fun _ => Spaced .word := by
  induction expected with
  | nil => exact .pure fun _ _ => id
  | cons first rest ih =>
      obtain ⟨letter, letters⟩ := List.forall_mem_cons.mp letters
      refine .takeOr_word starts_word (fun value => ?_) fun value closed => ?_
      · split
        case isTrue => exact ih letters
        case isFalse => exact .refuse
      · have other : value ≠ first := by
          rintro rfl
          rw [letter] at closed
          cases closed
        rw [if_neg other]
        exact .refuse

-----------------------------------------------------------------------------------------
-- Numbers
-----------------------------------------------------------------------------------------

theorem isWordByte_of_isDigit {value : UInt8} (digit : isDigit value = true)
    : isWordByte value = true := by
  by_contra closed
  simp only [isWordByte, isBlank, Bool.not_eq_true', Bool.not_eq_false, Bool.or_eq_true,
    beq_iff_eq] at closed
  rcases closed with ((((((((((rfl | rfl) | rfl) | rfl) | rfl) | rfl) | rfl) | rfl) | rfl) | rfl)
    | rfl) <;> exact absurd digit (by decide)

theorem not_isDigit_of_closed {value : UInt8} (closed : isWordByte value = false)
    : isDigit value = false := by
  by_contra digit
  rw [isWordByte_of_isDigit (Bool.not_eq_false _ ▸ digit)] at closed
  cases closed

theorem digits_go_of_atBreak {feed : Feed} (broken : feed.AtBreak) (limit taken value count : Nat)
    : ∃ looked, digits.go limit feed taken value count
        = .ok ⟨value, count, false⟩ ⟨feed, taken, looked⟩ := by
  rcases broken with rfl | ⟨byte, rest, rfl, closed⟩
  · exact ⟨false, rfl⟩
  · refine ⟨true, ?_⟩
    rw [digits.go, not_isDigit_of_closed closed]
    rfl

theorem skipDigits_go_of_atBreak {feed : Feed} (broken : feed.AtBreak) (taken count : Nat)
    : ∃ looked, skipDigits.go feed taken count = .ok count ⟨feed, taken, looked⟩ := by
  rcases broken with rfl | ⟨byte, rest, rfl, closed⟩
  · exact ⟨false, rfl⟩
  · refine ⟨true, ?_⟩
    rw [skipDigits.go, not_isDigit_of_closed closed]
    rfl

theorem follows_digits (limit start : Nat)
    : Follows (Spaced .word) (digits limit start) (digits limit start) fun _ => Spaced .word := by
  have hgo {feed feed' : Feed} (related : Spaced .word feed feed') : ∀ taken taken' value count,
      ∀ run next, digits.go limit feed taken value count = .ok run next →
        ∃ last, digits.go limit feed' taken' value count = .ok run last
          ∧ Spaced .word next.feed last.feed := by
    induction related using Spaced.word_induction with
    | stop feed feed' related left right =>
        intro taken taken' value count run next reached
        obtain ⟨looked, found⟩ := digits_go_of_atBreak left limit taken value count
        obtain ⟨looked', found'⟩ := digits_go_of_atBreak right limit taken' value count
        obtain ⟨rfl, rfl⟩ := EStateM.Result.ok.inj (found.symm.trans reached)
        exact ⟨_, found', related⟩
    | step byte rest other belongs related ih =>
        intro taken taken' value count run next reached
        have stays := Spaced.word_byte belongs related
        rw [digits.go] at reached ⊢
        split at reached
        case isTrue digit =>
          rw [if_pos digit]
          dsimp only at reached ⊢
          split at reached
          case isTrue further =>
            rw [if_pos further]
            exact ih _ _ _ _ _ _ reached
          case isFalse full =>
            rw [if_neg full]
            obtain ⟨rfl, rfl⟩ := EStateM.Result.ok.inj reached
            exact ⟨_, rfl, stays⟩
        case isFalse digit =>
          rw [if_neg digit]
          obtain ⟨rfl, rfl⟩ := EStateM.Result.ok.inj reached
          exact ⟨_, rfl, stays⟩
  rintro ⟨feed, taken, peeked⟩ ⟨feed', taken', peeked'⟩ related run next reached
  exact hgo related _ _ _ _ _ _ reached

theorem follows_skipDigits
    : Follows (Spaced .word) skipDigits skipDigits fun _ => Spaced .word := by
  have hgo {feed feed' : Feed} (related : Spaced .word feed feed') : ∀ taken taken' count,
      ∀ run next, skipDigits.go feed taken count = .ok run next →
        ∃ last, skipDigits.go feed' taken' count = .ok run last
          ∧ Spaced .word next.feed last.feed := by
    induction related using Spaced.word_induction with
    | stop feed feed' related left right =>
        intro taken taken' count run next reached
        obtain ⟨looked, found⟩ := skipDigits_go_of_atBreak left taken count
        obtain ⟨looked', found'⟩ := skipDigits_go_of_atBreak right taken' count
        obtain ⟨rfl, rfl⟩ := EStateM.Result.ok.inj (found.symm.trans reached)
        exact ⟨_, found', related⟩
    | step byte rest other belongs related ih =>
        intro taken taken' count run next reached
        rw [skipDigits.go] at reached ⊢
        split at reached
        case isTrue digit =>
          rw [if_pos digit]
          exact ih _ _ _ _ _ reached
        case isFalse digit =>
          rw [if_neg digit]
          obtain ⟨rfl, rfl⟩ := EStateM.Result.ok.inj reached
          exact ⟨_, rfl, Spaced.word_byte belongs related⟩
  rintro ⟨feed, taken, peeked⟩ ⟨feed', taken', peeked'⟩ related run next reached
  exact hgo related _ _ _ _ _ reached

/-- What is answered for the digits depends on no feed. -/
theorem follows_real (positive : Bool) (significand : Nat) (exponent : Int)
    : Follows before (real positive significand exponent) (real positive significand exponent)
        fun _ => before := by
  unfold real
  split
  case h_1 => exact .pure fun _ _ => id
  case h_2 => exact .refuse

/-- A byte of a number that was looked at is read on both sides. -/
theorem follows_skip_word {value : UInt8} (belongs : isWordByte value = true)
    : Follows (Faces .word (some value)) skip skip fun _ => Spaced .word := by
  have follows := follows_skip .word value
  rwa [(Spot.after_word belongs).2] at follows

theorem follows_exponentSign
    : Follows (Spaced .word) exponentSign exponentSign fun _ => Spaced .word := by
  refine .peek_word (pure true) (fun value belongs => ?_) (fun seen closed => ?_) ?_
  · split
    case h_1 => exact .bind (follows_skip_word belongs) fun _ => .pure fun _ _ => id
    case h_2 => exact .bind (follows_skip_word belongs) fun _ => .pure fun _ _ => id
    case h_3 => exact .pure fun _ _ => Faces.spaced
  · split
    case h_1 => exact absurd (closed 0x2B rfl) (by decide)
    case h_2 => exact absurd (closed 0x2D rfl) (by decide)
    case h_3 => rfl
  · exact .pure fun _ _ => id

theorem beginsExponent_of_closed {seen : Option UInt8}
    (closed : ∀ value ∈ seen, isWordByte value = false)
    : beginsExponent seen = false := by
  by_contra begins
  simp only [beginsExponent, Bool.not_eq_false, Bool.or_eq_true, beq_iff_eq] at begins
  rcases begins with rfl | rfl
  · exact absurd (closed 0x65 rfl) (by decide)
  · exact absurd (closed 0x45 rfl) (by decide)

theorem follows_exponentPart {value : UInt8} (belongs : isWordByte value = true)
    (positive : Bool) (significand : Nat) (start : Int)
    : Follows (Faces .word (some value)) (exponentPart positive significand start)
        (exponentPart positive significand start) fun _ => Spaced .word := by
  refine .bind (follows_skip_word belongs) fun _ => .bind follows_exponentSign fun raising => ?_
  refine .takeOr_word starts_word (fun first => ?_) fun first closed => ?_
  · split
    case isTrue =>
      refine .bind (follows_digits _ _) fun run => ?_
      split
      case isTrue =>
        split
        case isTrue => exact .never (.andThen fun _ => .refuse)
        case isFalse => exact .bind follows_skipDigits fun _ => .pure fun _ _ => id
      case isFalse => exact follows_real _ _ _
    case isFalse => exact .refuse
  · rw [not_isDigit_of_closed closed]
    exact .refuse

theorem follows_afterDigits (positive : Bool) (significand : Nat) (exponent : Int)
    : Follows (Spaced .word) (afterDigits positive significand exponent)
        (afterDigits positive significand exponent) fun _ => Spaced .word := by
  refine .peek_word (real positive significand exponent) (fun value belongs => ?_)
    (fun seen closed => ?_) (follows_real _ _ _)
  · split
    case isTrue => exact follows_exponentPart belongs _ _ _
    case isFalse => exact (follows_real _ _ _).weaken fun _ _ _ => Faces.spaced
  · rw [beginsExponent_of_closed closed]
    rfl

theorem follows_fractionPart {value : UInt8} (belongs : isWordByte value = true)
    (positive : Bool) (significand : Nat) (exponent : Int)
    : Follows (Faces .word (some value)) (fractionPart positive significand exponent)
        (fractionPart positive significand exponent) fun _ => Spaced .word := by
  refine .bind (follows_skip_word belongs) fun _ => .bind (follows_digits _ _) fun run => ?_
  split
  case isTrue => exact .bind follows_skipDigits fun _ => follows_afterDigits _ _ _
  case isFalse =>
    split
    case isTrue =>
      refine .never (.andThen fun next => ?_)
      split <;> exact .refuse
    case isFalse => exact follows_afterDigits _ _ _

/-- What may follow a whole part: a fraction, an exponent, or something that ends the number. -/
theorem follows_afterPart {fraction exponent whole : Reading Json}
    (follows_fraction : ∀ value, isWordByte value = true →
      Follows (Faces .word (some value)) fraction fraction fun _ => Spaced .word)
    (follows_exponent : ∀ value, isWordByte value = true →
      Follows (Faces .word (some value)) exponent exponent fun _ => Spaced .word)
    (follows_whole : ∀ before, Follows before whole whole fun _ => before)
    : Follows (Spaced .word)
        (peek >>= fun next => match next with
          | some 0x2E => fraction
          | next => if beginsExponent next then exponent else whole)
        (peek >>= fun next => match next with
          | some 0x2E => fraction
          | next => if beginsExponent next then exponent else whole)
        fun _ => Spaced .word := by
  refine .peek_word whole (fun value belongs => ?_) (fun seen closed => ?_) (follows_whole _)
  · split
    case h_1 => exact follows_fraction value belongs
    case h_2 =>
      split
      case isTrue => exact follows_exponent value belongs
      case isFalse => exact (follows_whole _).weaken fun _ _ _ => Faces.spaced
  · split
    case h_1 => exact absurd (closed 0x2E rfl) (by decide)
    case h_2 =>
      rw [beginsExponent_of_closed closed]
      rfl

theorem follows_afterWhole (positive : Bool) (significand : Nat)
    : Follows (Spaced .word) (afterWhole positive significand) (afterWhole positive significand)
        fun _ => Spaced .word := by
  refine follows_afterPart (fun _ belongs => follows_fractionPart belongs _ _ _)
    (fun _ belongs => follows_exponentPart belongs _ _ _) fun before => ?_
  split
  case isTrue => exact .pure fun _ _ => id
  case isFalse =>
    split
    case isTrue => exact .pure fun _ _ => id
    case isFalse => split <;> exact .pure fun _ _ => id

theorem follows_longWhole (positive : Bool) (significand : Nat)
    : Follows (Spaced .word) (longWhole positive significand) (longWhole positive significand)
        fun _ => Spaced .word := by
  refine .bind follows_skipDigits fun more => ?_
  exact follows_afterPart (fun _ belongs => follows_fractionPart belongs _ _ _)
    (fun _ belongs => follows_exponentPart belongs _ _ _) fun _ => follows_real _ _ _

theorem follows_number (starts : Starts before) (positive : Bool)
    : Follows before (number positive) (number positive) fun _ => Spaced .word := by
  refine .takeOr_word starts (fun first => ?_) fun first closed => ?_
  · split
    case isTrue =>
      refine .peek_word (afterWhole positive 0) (fun value belongs => ?_) (fun seen closed => ?_)
        (follows_afterWhole _ _)
      · dsimp only
        split
        case isTrue => exact .refuse
        case isFalse => exact (follows_afterWhole _ _).restrict fun _ _ => Faces.spaced
      · split
        case h_1 next =>
          rw [not_isDigit_of_closed (closed next rfl)]
          rfl
        case h_2 => rfl
    case isFalse =>
      split
      case isTrue =>
        refine .bind (follows_digits _ _) fun run => ?_
        split
        case isTrue => exact follows_longWhole _ _
        case isFalse => exact follows_afterWhole _ _
      case isFalse => exact .refuse
  · have other : first ≠ 0x30 := by
      rintro rfl
      exact absurd closed (by decide)
    rw [if_neg other, not_isDigit_of_closed closed]
    exact .refuse

end RouteDesk.Json.Reading
