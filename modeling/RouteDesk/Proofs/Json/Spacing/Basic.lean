import RouteDesk.Proofs.Json.Counts
import RouteDesk.Proofs.Json.Yields

/-! Blanks between tokens make no difference. Two feeds are compared of which the second has more
blanks than the first, but only where a token may begin or end; whatever the reader makes of the
first feed, it makes of the second one too.
-/

namespace RouteDesk.Json

/-- Where a byte stands: between tokens, or in a number or a literal, in a string, or right after a
backslash in a string.
-/
inductive Spot where
  | between
  | word
  | string
  | escape
deriving DecidableEq

/-- Whether the byte may belong to a number or a literal: no blank, no punctuation, no quote. -/
def isWordByte (value : UInt8) : Bool :=
  !(Reading.isBlank value || value == 0x7B || value == 0x7D || value == 0x5B || value == 0x5D
    || value == 0x2C || value == 0x3A || value == 0x22)

/-- Where the byte after this one stands. A byte that goes on with a token or begins the next one is
told by itself, so the spots between tokens and in a word go on alike.
-/
def Spot.after : Spot → UInt8 → Spot
  | .between, value | .word, value =>
    if value = 0x22 then .string else if isWordByte value then .word else .between
  | .string, value => if value = 0x22 then .between else if value = 0x5C then .escape else .string
  | .escape, _ => .string

theorem not_isWordByte_of_isBlank {value : UInt8} (white : Reading.isBlank value = true)
    : isWordByte value = false := by
  rw [isWordByte, white]
  rfl

theorem Spot.after_word {value : UInt8} (belongs : isWordByte value = true)
    : Spot.between.after value = .word ∧ Spot.word.after value = .word := by
  have other : value ≠ 0x22 := by
    rintro rfl
    exact absurd belongs (by decide)
  simp only [Spot.after, if_neg other, if_pos belongs, and_self]

theorem Spot.after_blank {value : UInt8} (white : Reading.isBlank value = true)
    : Spot.between.after value = .between := by
  have other : value ≠ 0x22 := by
    rintro rfl
    exact absurd white (by decide)
  simp only [Spot.after, if_neg other, not_isWordByte_of_isBlank white, Bool.false_eq_true,
    if_false]

theorem Spot.after_string_other {value : UInt8} (notQuote : value ≠ 0x22)
    (notBackslash : value ≠ 0x5C)
    : Spot.string.after value = .string := by
  rw [Spot.after, if_neg notQuote, if_neg notBackslash]

/-- The next byte, if one can be read. -/
def Feed.head? : Feed → Option UInt8
  | .byte value _ => some value
  | _ => none

/-- Between tokens, or at the end of a number or literal, as the next byte tells. -/
def Spot.Free (spot : Spot) (next : Option UInt8) : Prop :=
  spot = .between ∨ spot = .word ∧ ∀ value, next = some value → isWordByte value = false

/-- In a string. -/
def Spot.Inside (spot : Spot) : Prop :=
  spot = .string ∨ spot = .escape

instance (spot : Spot) : Decidable spot.Inside :=
  inferInstanceAs (Decidable (spot = .string ∨ spot = .escape))

/-- The second feed is the first one with blanks put in between tokens. -/
inductive Spaced : Spot → Feed → Feed → Prop
  | done {spot} (outside : ¬spot.Inside) : Spaced spot .done .done
  | ended {spot first second} (inside : spot.Inside) (left : first = .done ∨ first = .cut)
    (right : second = .done ∨ second = .cut) : Spaced spot first second
  | byte {spot value first second} (rest : Spaced (spot.after value) first second)
    : Spaced spot (.byte value first) (.byte value second)
  | blank {spot value first second} (white : Reading.isBlank value = true)
    (free : spot.Free first.head?) (rest : Spaced spot first second)
    : Spaced spot first (.byte value second)

/-- The feed is over, or goes on with a byte that belongs to no number and no literal. -/
def Feed.AtBreak (feed : Feed) : Prop :=
  feed = .done ∨ ∃ value rest, feed = .byte value rest ∧ isWordByte value = false

namespace Spaced

variable {spot : Spot} {first second : Feed}

theorem size_le (spaced : Spaced spot first second)
    : first.size ≤ second.size := by
  induction spaced with
  | done outside => exact Nat.le_refl _
  | ended inside left right => rcases left with rfl | rfl <;> exact Nat.zero_le _
  | byte rest ih => exact Nat.succ_le_succ ih
  | blank white free rest ih => exact Nat.le_succ_of_le ih

/-- What stands between tokens may stand at the end of a number or a literal as well. -/
theorem between_of_word (spaced : Spaced .word first second)
    : Spaced .between first second := by
  generalize hspot : Spot.word = spot at spaced
  induction spaced with
  | done outside => exact .done (by decide)
  | ended inside left right => exact absurd (hspot ▸ inside) (by decide)
  | byte rest ih =>
      subst hspot
      exact .byte rest
  | blank white free rest ih => exact .blank white (.inl rfl) (ih hspot)

/-- Outside of strings the first feed is over or goes on with a byte. -/
theorem done_or_byte (spaced : Spaced spot first second) (outside : ¬spot.Inside)
    : first = .done ∨ ∃ value rest, first = .byte value rest := by
  induction spaced with
  | done outside => exact .inl rfl
  | ended inside left right => exact absurd inside outside
  | byte rest ih => exact .inr ⟨_, _, rfl⟩
  | blank white free rest ih => exact ih outside

/-- In a number or a literal both feeds go on with the same byte, or both break off. -/
theorem word_cases (spaced : Spaced .word first second)
    : (∃ value rest other, first = .byte value rest ∧ second = .byte value other
        ∧ isWordByte value = true ∧ Spaced .word rest other)
      ∨ first.AtBreak ∧ second.AtBreak := by
  cases spaced with
  | done outside => exact .inr ⟨.inl rfl, .inl rfl⟩
  | ended inside left right => exact absurd inside (by decide)
  | @byte _ value rest other later =>
      by_cases belongs : isWordByte value = true
      case pos =>
        rw [(Spot.after_word belongs).2] at later
        exact .inl ⟨value, rest, other, rfl, rfl, belongs, later⟩
      case neg =>
        have breaks := Bool.eq_false_iff.mpr belongs
        exact .inr ⟨.inr ⟨value, rest, rfl, breaks⟩, .inr ⟨value, other, rfl, breaks⟩⟩
  | @blank _ value _ other white free later =>
      -- A blank was put in only because the number or literal is over in the first feed already.
      refine .inr ⟨?_, .inr ⟨value, other, rfl, not_isWordByte_of_isBlank white⟩⟩
      rcases later.done_or_byte (by decide) with rfl | ⟨head, rest, rfl⟩
      · exact .inl rfl
      · rcases free with between | ⟨-, closed⟩
        · cases between
        · exact .inr ⟨head, rest, rfl, closed head rfl⟩

theorem word_byte {value : UInt8} (belongs : isWordByte value = true)
    (later : Spaced .word first second)
    : Spaced .word (.byte value first) (.byte value second) := by
  refine .byte ?_
  rw [(Spot.after_word belongs).2]
  exact later

/-- Induction on what is left of a number or a literal. -/
@[elab_as_elim]
theorem word_induction
    {motive : (first second : Feed) → Spaced .word first second → Prop}
    (stop : ∀ first second (spaced : Spaced .word first second), first.AtBreak →
      second.AtBreak → motive first second spaced)
    (step : ∀ value first second (belongs : isWordByte value = true)
      (later : Spaced .word first second), motive first second later →
        motive (.byte value first) (.byte value second) (word_byte belongs later))
    (spaced : Spaced .word first second)
    : motive first second spaced := by
  induction first generalizing second with
  | byte value rest ih =>
      rcases spaced.word_cases with ⟨_, _, other, same, rfl, belongs, later⟩ | ⟨left, right⟩
      · obtain ⟨rfl, rfl⟩ := Feed.byte.inj same
        exact step value rest other belongs later (ih later)
      · exact stop _ _ spaced left right
  | _ =>
      rcases spaced.word_cases with ⟨_, _, _, same, -⟩ | ⟨left, right⟩
      · cases same
      · exact stop _ _ spaced left right

/-- In a string both feeds go on with the same byte, if the first one goes on. -/
theorem inside_cases (spaced : Spaced spot first second) (inside : spot.Inside)
    : (∃ value rest other, first = .byte value rest ∧ second = .byte value other
        ∧ Spaced (spot.after value) rest other)
      ∨ first = .done ∨ first = .cut := by
  cases spaced with
  | done outside => exact absurd inside outside
  | ended _ left right => exact .inr left
  | byte later => exact .inl ⟨_, _, _, rfl, rfl, later⟩
  | blank white free later =>
      rcases free with rfl | ⟨rfl, -⟩
      · exact absurd inside (by decide)
      · exact absurd inside (by decide)

end Spaced

-----------------------------------------------------------------------------------------
-- Reading two feeds side by side
-----------------------------------------------------------------------------------------

/-- Both feeds go on with this byte, or are both over. -/
def Faces (spot : Spot) : Option UInt8 → Feed → Feed → Prop
  | some value, first, second =>
    ∃ rest other, first = .byte value rest ∧ second = .byte value other
      ∧ Spaced (spot.after value) rest other
  | none, first, second => first = .done ∧ second = .done

theorem Faces.spaced {spot : Spot} {value : UInt8} {first second : Feed}
    (faces : Faces spot (some value) first second)
    : Spaced spot first second := by
  obtain ⟨rest, other, rfl, rfl, later⟩ := faces
  exact .byte later

namespace Reading

variable {α β : Type} {before : Feed → Feed → Prop}

/-- Whatever the first action answers on one feed, the second one answers on a feed that is related
to it, and the feeds that they leave are related again.
-/
def Follows (before : Feed → Feed → Prop) (first second : Reading α)
    (after : α → Feed → Feed → Prop) : Prop :=
  ∀ ⦃cursor other : Cursor⦄, before cursor.feed other.feed →
    ∀ ⦃value : α⦄ ⦃next : Cursor⦄, first cursor = .ok value next →
      ∃ last, second other = .ok value last ∧ after value next.feed last.feed

namespace Follows

variable {first second : Reading α} {middle : α → Feed → Feed → Prop}
  {following following' : α → Reading β} {after : β → Feed → Feed → Prop}

theorem pure {value : β} (holds : ∀ ⦃feed other⦄, before feed other → after value feed other)
    : Follows before (Pure.pure value) (Pure.pure value) after := by
  intro cursor other related answer next reached
  obtain ⟨rfl, rfl⟩ := EStateM.Result.ok.inj reached
  exact ⟨other, rfl, holds related⟩

theorem never {first second : Reading β} (fails : Yields first fun _ => False)
    : Follows before first second after :=
  fun _ _ _ _ _ reached => (fails reached).elim

theorem refuse {refusal : Refusal} {second : Reading β}
    : Follows before (Reading.refuse refusal) second after :=
  never .refuse

theorem bind (first' : Follows before first second middle)
    (second' : ∀ value, Follows (middle value) (following value) (following' value) after)
    : Follows before (first >>= following) (second >>= following') after := by
  intro cursor other related answer last reached
  change EStateM.bind first following cursor = _ at reached
  unfold EStateM.bind at reached
  split at reached
  case h_2 => cases reached
  case h_1 value place found =>
    obtain ⟨place', found', later⟩ := first' related found
    obtain ⟨last', reached', final⟩ := second' value later reached
    refine ⟨last', ?_, final⟩
    change EStateM.bind second following' other = _
    rw [EStateM.bind, found']
    exact reached'

theorem mono {before' : Feed → Feed → Prop} {after' : α → Feed → Feed → Prop}
    (follows : Follows before first second middle)
    (stronger : ∀ ⦃feed other⦄, before' feed other → before feed other)
    (weaker : ∀ value ⦃feed other⦄, middle value feed other → after' value feed other)
    : Follows before' first second after' := by
  intro cursor other related value next reached
  obtain ⟨last, reached', later⟩ := follows (stronger related) reached
  exact ⟨last, reached', weaker value later⟩

theorem restrict {before' : Feed → Feed → Prop} (follows : Follows before first second middle)
    (stronger : ∀ ⦃feed other⦄, before' feed other → before feed other)
    : Follows before' first second middle :=
  follows.mono stronger fun _ _ _ => id

theorem weaken {after' : α → Feed → Feed → Prop} (follows : Follows before first second middle)
    (weaker : ∀ value ⦃feed other⦄, middle value feed other → after' value feed other)
    : Follows before first second after' :=
  follows.mono (fun _ _ => id) weaker

/-- The second feed is at least as long as the first one, so its loops have enough steps. -/
theorem bound {following following' : Nat → Reading β} {spot : Spot}
    (later : ∀ limit limit', limit ≤ limit' →
      Follows (Spaced spot) (following limit) (following' limit') after)
    : Follows (Spaced spot) (Reading.bound >>= following) (Reading.bound >>= following') after := by
  intro cursor other related value next reached
  exact later _ _ (Nat.succ_le_succ related.size_le) related reached

end Follows

/-- The byte that was looked at is read on both sides. -/
theorem follows_skip (spot : Spot) (value : UInt8)
    : Follows (Faces spot (some value)) skip skip fun _ => Spaced (spot.after value) := by
  rintro ⟨feed, taken, peeked⟩ ⟨feed', taken', peeked'⟩ ⟨rest, other, rfl, rfl, later⟩ _ next
    reached
  obtain ⟨-, rfl⟩ := EStateM.Result.ok.inj reached
  exact ⟨_, rfl, later⟩

/-- Blanks are passed over on both sides, by induction on how the feeds are related. -/
theorem follows_peekToken
    : Follows (Spaced .between) peekToken peekToken (Faces .between) := by
  rintro ⟨feed, taken, peeked⟩ ⟨feed', taken', peeked'⟩ related token next reached
  change peekToken.go feed taken = _ at reached
  change ∃ last, peekToken.go feed' taken' = _ ∧ _
  change Spaced .between feed feed' at related
  generalize hspot : Spot.between = spot at related
  induction related generalizing taken taken' with
  | done outside =>
      obtain ⟨rfl, rfl⟩ := EStateM.Result.ok.inj reached
      exact ⟨_, rfl, rfl, rfl⟩
  | ended inside left right => exact absurd (hspot ▸ inside) (by decide)
  | @byte spot value rest other later ih =>
      subst hspot
      rw [peekToken.go] at reached ⊢
      split at reached
      case isTrue white =>
        rw [Spot.after_blank white] at ih
        rw [if_pos white]
        exact ih _ _ reached rfl
      case isFalse token' =>
        rw [if_neg token']
        obtain ⟨rfl, rfl⟩ := EStateM.Result.ok.inj reached
        exact ⟨_, rfl, rest, other, rfl, rfl, later⟩
  | blank white free later ih =>
      rw [peekToken.go, if_pos white]
      exact ih _ _ reached hspot

end Reading

end RouteDesk.Json
