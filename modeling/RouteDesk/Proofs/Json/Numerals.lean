import RouteDesk.Proofs.Json.Takes

/-! Reading numerals that are not whole: digits with a fraction, with an exponent, or with both.
They are read as the product of all their digits with a power of ten.
-/

namespace RouteDesk.Json

/-- The parts of a numeral. -/
structure Numeral where
  whole : List Char
  fraction : List Char := []
  /-- Whether the exponent raises the number, and its digits. -/
  power : Option (Bool × Nat) := none

namespace Numeral

/-- The characters of an exponent. -/
def powerChars : Option (Bool × Nat) → List Char
  | none => []
  | some (raising, power) => 'e' :: (if raising then '+' else '-') :: Nat.toDigits 10 power

/-- The characters of a numeral. -/
def chars (numeral : Numeral) : List Char :=
  numeral.whole
    ++ (if numeral.fraction = [] then [] else '.' :: numeral.fraction)
    ++ powerChars numeral.power

/-- The number that all digits stand for without the point. -/
def significand (numeral : Numeral) : Nat :=
  Nat.ofDigitChars 10 (numeral.whole ++ numeral.fraction) 0

/-- How an exponent moves a power of ten. -/
def moved (start : Int) : Option (Bool × Nat) → Int
  | none => start
  | some (raising, power) => if raising then start + power else start - power

/-- The power of ten of the last digit. -/
def exponent (numeral : Numeral) : Int :=
  moved (-(numeral.fraction.length : Int)) numeral.power

/-- What a numeral that is not whole has to be like. -/
structure Proper (numeral : Numeral) : Prop where
  digits : ∀ char ∈ numeral.whole ++ numeral.fraction, char.isDigit = true
  lead : ∃ first chars, numeral.whole = first :: chars ∧ (first = '0' → chars = [])
  parts : numeral.fraction = [] → numeral.power.isSome = true
  small : numeral.significand < Reading.wordLimit
  power (raising : Bool) (power : Nat) (same : numeral.power = some (raising, power))
    : power < Reading.exponentLimit

end Numeral

namespace Reading

open Numeral (powerChars moved)

variable {positive : Bool} {significand : Nat} {magnitude : Float} {byte : UInt8}

/-- A number with a sign. -/
def signed (positive : Bool) (magnitude : Float) : Json :=
  .real (if positive then magnitude else -magnitude)

theorem takes_real {exponent : Int}
    (scaled : Decimal.scaled significand exponent = some magnitude) (rest : Feed)
    : Takes (real positive significand exponent) [] (signed positive magnitude) rest := by
  unfold real
  rw [scaled]
  exact .pure _ rest

/-- An exponent is read with its sign. -/
theorem takes_exponentPart {start : Int} {raising : Bool} {power : Nat}
    (closing : Closing byte) (small : power < exponentLimit)
    (scaled : Decimal.scaled significand (moved start (some (raising, power))) = some magnitude)
    (rest : Feed)
    : Takes (exponentPart positive significand start)
        ((powerChars (some (raising, power))).map byteOf) (signed positive magnitude)
        (.byte byte rest) := by
  obtain ⟨first, chars, split, -⟩ := toDigits_lead power
  have digit (char : Char) (member : char ∈ first :: chars) : char.isDigit = true :=
    isDigit_toDigits (split ▸ member)
  obtain ⟨hfirst, hchars⟩ := List.forall_mem_cons.mp digit
  have whole : Nat.ofDigitChars 10 chars ((byteOf first).toNat - 0x30) = power := by
    have same : Nat.ofDigitChars 10 (Nat.toDigits 10 power) 0 = power :=
      Nat.ofDigitChars_ten_toDigits
    rw [split, Nat.ofDigitChars_cons, Nat.mul_zero, Nat.zero_add] at same
    rw [(toNat_byteOf hfirst).1]
    exact same
  have reads := takes_digits hchars (whole ▸ small) closing.isDigit_eq_false rest
  rw [whole] at reads
  have sign : Takes exponentSign [byteOf (if raising then '+' else '-')] raising
      (Feed.after ((first :: chars).map byteOf) (.byte byte rest)) := by
    cases raising with
    | true => exact .look (takes_peek _ _) (.step (takes_skip _ _) (.pure _ _))
    | false => exact .look (takes_peek _ _) (.step (takes_skip _ _) (.pure _ _))
  rw [powerChars, split, List.map_cons, List.map_cons]
  refine .step (takes_skip _ _) (.step sign (.step (takes_takeOr _ _ _) ?_))
  rw [if_pos (isDigit_byteOf hfirst), ← List.append_nil (List.map _ _)]
  refine .bind reads ?_
  rw [if_neg Bool.false_ne_true]
  exact takes_real scaled _

/-- What follows the digits of a numeral does not begin with a digit. -/
theorem powerChars_ends (power : Option (Bool × Nat)) (closing : Closing byte) (rest : Feed)
    : ∃ next more, Feed.after ((powerChars power).map byteOf) (.byte byte rest) = .byte next more
        ∧ isDigit next = false := by
  cases power with
  | none => exact ⟨byte, rest, rfl, closing.isDigit_eq_false⟩
  | some => exact ⟨0x65, _, rfl, by decide⟩

/-- After the digits of a fraction the number ends, or goes on with an exponent. -/
theorem takes_afterDigits {start : Int} {power : Option (Bool × Nat)} (closing : Closing byte)
    (small : ∀ raising value, power = some (raising, value) → value < exponentLimit)
    (scaled : Decimal.scaled significand (moved start power) = some magnitude) (rest : Feed)
    : Takes (afterDigits positive significand start) ((powerChars power).map byteOf)
        (signed positive magnitude) (.byte byte rest) := by
  unfold afterDigits
  cases power with
  | none =>
      refine .look (takes_peek _ _) ?_
      have plain : beginsExponent (some byte) = false := by
        rcases closing with rfl | rfl <;> decide
      rw [plain, if_neg (by decide)]
      exact takes_real scaled _
  | some sign =>
      obtain ⟨raising, value⟩ := sign
      refine .look (takes_peek 0x65 _) ?_
      rw [if_pos (by decide)]
      exact takes_exponentPart closing (small raising value rfl) scaled rest

/-- After the whole part of a numeral comes a fraction or an exponent. -/
theorem takes_afterWhole_part {numeral : Numeral} (proper : numeral.Proper)
    (closing : Closing byte)
    (scaled : Decimal.scaled numeral.significand numeral.exponent = some magnitude) (rest : Feed)
    : Takes (afterWhole positive (Nat.ofDigitChars 10 numeral.whole 0))
        (((if numeral.fraction = [] then [] else '.' :: numeral.fraction)
          ++ powerChars numeral.power).map byteOf)
        (signed positive magnitude) (.byte byte rest) := by
  have small := proper.small
  unfold Numeral.significand Numeral.exponent at scaled
  unfold Numeral.significand at small
  rw [Nat.ofDigitChars_append] at scaled small
  unfold afterWhole
  by_cases none : numeral.fraction = []
  · obtain ⟨⟨raising, value⟩, power⟩ := Option.isSome_iff_exists.mp (proper.parts none)
    have short := proper.power raising value power
    rw [if_pos none, List.nil_append, power]
    rw [none, power] at scaled
    refine .look (takes_peek 0x65 _) ?_
    exact takes_exponentPart closing short scaled rest
  · rw [if_neg none, List.cons_append, List.map_cons, List.map_append]
    refine .look (takes_peek 0x2E _) ?_
    change Takes (fractionPart positive _ 0) _ _ _
    obtain ⟨next, more, follows, notDigit⟩ := powerChars_ends numeral.power closing rest
    have digit (char : Char) (member : char ∈ numeral.fraction) : char.isDigit = true :=
      proper.digits char (List.mem_append_right _ member)
    have reads := takes_digits digit small notDigit more
    rw [← follows] at reads
    unfold fractionPart
    refine .step (takes_skip _ _) (.bind reads ?_)
    have some' : numeral.fraction.length ≠ 0 := by simpa using none
    rw [if_neg Bool.false_ne_true, if_neg some']
    refine takes_afterDigits closing proper.power ?_ rest
    rw [Int.zero_sub]
    exact scaled

/-- A numeral is read as its digits, scaled by its exponent. -/
theorem takes_numeral {numeral : Numeral} (proper : numeral.Proper) (closing : Closing byte)
    (scaled : Decimal.scaled numeral.significand numeral.exponent = some magnitude) (rest : Feed)
    : Takes (number positive) (numeral.chars.map byteOf) (signed positive magnitude)
        (.byte byte rest) := by
  have small : Nat.ofDigitChars 10 numeral.whole 0 < wordLimit := by
    have := proper.small
    unfold Numeral.significand at this
    rw [Nat.ofDigitChars_append] at this
    exact (le_ofDigitChars _ _).trans_lt this
  rw [Numeral.chars, List.append_assoc, List.map_append]
  refine takes_whole (fun char member => proper.digits char (List.mem_append_left _ member))
    proper.lead small ?_ (takes_afterWhole_part proper closing scaled rest)
  split
  · exact powerChars_ends numeral.power closing rest
  · exact ⟨0x2E, _, rfl, by decide⟩

end Reading

end RouteDesk.Json
