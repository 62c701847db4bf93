import RouteDesk.Proofs.Decimal.Readable
import RouteDesk.Proofs.Json.Legible
import RouteDesk.Proofs.Json.Numerals

/-! Every finite real number is written as a numeral that is read again, whichever form the numeral
takes.
-/

namespace RouteDesk

namespace Decimal

open Json (Numeral)

/-- The parts of the text of a decimal. -/
def numeral (decimal : Decimal) : Numeral :=
  let digits := Nat.toDigits 10 decimal.digits
  let lead := decimal.exponent + digits.length - 1
  if lead < -5 ∨ 16 ≤ lead then
    ⟨digits.take 1, digits.drop 1, some (!(decide (lead < 0)), lead.natAbs)⟩
  else if 0 ≤ decimal.exponent then
    ⟨digits ++ List.replicate decimal.exponent.toNat '0', ['0'], none⟩
  else if 0 ≤ lead then
    ⟨digits.take (lead.toNat + 1), digits.drop (lead.toNat + 1), none⟩
  else ⟨['0'], List.replicate (-lead - 1).toNat '0' ++ digits, none⟩

/-- The text of a decimal consists of these parts. -/
theorem text_eq (decimal : Decimal) : decimal.text = String.ofList decimal.numeral.chars := by
  have nonempty := @Nat.length_toDigits_pos 10 decimal.digits
  unfold text numeral
  dsimp only
  generalize Nat.toDigits 10 decimal.digits = digits at nonempty
  split
  case isTrue far =>
    refine congrArg String.ofList ?_
    have point : (if digits.length ≤ 1 then [] else '.' :: digits.drop 1)
        = if digits.drop 1 = [] then [] else '.' :: digits.drop 1 :=
      if_congr List.drop_eq_nil_iff.symm rfl rfl
    have sign : (if decimal.exponent + digits.length - 1 < 0 then '-' else '+')
        = if !(decide (decimal.exponent + digits.length - 1 < 0)) then '+' else '-' := by
      by_cases below : decimal.exponent + digits.length - 1 < 0 <;> simp [below]
    rw [point, sign]
    rfl
  case isFalse near =>
    split
    case isTrue whole =>
      refine congrArg String.ofList ?_
      rw [Numeral.chars, if_neg (List.cons_ne_nil _ _), Numeral.powerChars, List.append_nil]
    case isFalse =>
      split
      case isTrue =>
        have rest : digits.drop ((decimal.exponent + digits.length - 1).toNat + 1) ≠ [] := by
          rw [ne_eq, List.drop_eq_nil_iff]
          omega
        refine congrArg String.ofList ?_
        rw [Numeral.chars, if_neg rest, Numeral.powerChars, List.append_nil]
      case isFalse =>
        have rest : List.replicate (-(decimal.exponent + digits.length - 1) - 1).toNat '0' ++ digits
            ≠ [] :=
          List.append_ne_nil_of_right_ne_nil _ (List.ne_nil_of_length_pos nonempty)
        refine congrArg String.ofList ?_
        rw [Numeral.chars, if_neg rest, Numeral.powerChars, List.append_nil]
        rfl

theorem ofDigitChars_zeros (count start : Nat)
    : Nat.ofDigitChars 10 (List.replicate count '0') start = start * 10 ^ count := by
  induction count generalizing start with
  | zero => simp
  | succ count ih =>
      rw [List.replicate_succ, Nat.ofDigitChars_cons, ih, Nat.pow_succ]
      simp
      ring

/-- The digits of a number, with a point among them, are the parts of a numeral. -/
theorem proper_split {numeral : Numeral} {number : Nat} (positive : 0 < number)
    (small : number < Json.Reading.wordLimit)
    (same : numeral.whole ++ numeral.fraction = Nat.toDigits 10 number)
    (nonempty : numeral.whole ≠ [])
    (parts : numeral.fraction = [] → numeral.power.isSome = true)
    (power : ∀ raising power, numeral.power = some (raising, power) →
      power < Json.Reading.exponentLimit)
    : numeral.Proper ∧ numeral.significand = number := by
  obtain ⟨first, chars, split, nonzero⟩ := Json.Reading.toDigits_eq_cons positive
  have whole : numeral.significand = number := by
    rw [Numeral.significand, same]
    exact Nat.ofDigitChars_ten_toDigits
  refine ⟨⟨fun char member => ?_, ?_, parts, whole ▸ small, power⟩, whole⟩
  · rw [same] at member
    exact Json.Reading.isDigit_toDigits member
  · obtain ⟨head, tail, begins⟩ := List.exists_cons_of_ne_nil nonempty
    rw [begins, split] at same
    obtain ⟨rfl, -⟩ := List.cons.inj same
    exact ⟨head, tail, begins, fun zero => absurd zero nonzero⟩

/-- The digits of a number with zeros at the end and nothing after the point. -/
theorem proper_whole {number zeros : Nat} (positive : 0 < number)
    (few : (Nat.toDigits 10 number).length + zeros ≤ 16)
    : (Numeral.mk (Nat.toDigits 10 number ++ List.replicate zeros '0') ['0'] none).Proper := by
  obtain ⟨first, chars, split, nonzero⟩ := Json.Reading.toDigits_eq_cons positive
  have below := (length_toDigits_spec positive).2
  refine ⟨fun char member => ?_, ?_, fun none => (by cases none), ?_,
    fun _ _ same => (by cases same)⟩
  · simp only [List.append_assoc, List.mem_append, List.mem_replicate,
      List.mem_singleton] at member
    rcases member with member | ⟨-, rfl⟩ | rfl
    · exact Json.Reading.isDigit_toDigits member
    · rfl
    · rfl
  · exact ⟨first, chars ++ List.replicate zeros '0', by rw [split]; rfl,
      fun zero => absurd zero nonzero⟩
  · have value : (Numeral.mk (Nat.toDigits 10 number ++ List.replicate zeros '0') ['0']
        none).significand = number * 10 ^ (zeros + 1) := by
      rw [Numeral.significand, List.append_assoc, ← List.replicate_succ', Nat.ofDigitChars_append,
        Nat.ofDigitChars_ten_toDigits, ofDigitChars_zeros]
    rw [value]
    calc
      number * 10 ^ (zeros + 1) < 10 ^ (Nat.toDigits 10 number).length * 10 ^ (zeros + 1) := by
        gcongr
      _ = 10 ^ ((Nat.toDigits 10 number).length + (zeros + 1)) := (Nat.pow_add _ _ _).symm
      _ ≤ 10 ^ 17 := Nat.pow_le_pow_right (by decide) (by omega)
      _ < Json.Reading.wordLimit := by decide

/-- The digits of a number after a zero, a point and more zeros. -/
theorem proper_tenths {number zeros : Nat} (small : number < Json.Reading.wordLimit)
    : (Numeral.mk ['0'] (List.replicate zeros '0' ++ Nat.toDigits 10 number) none).Proper
      ∧ (Numeral.mk ['0'] (List.replicate zeros '0' ++ Nat.toDigits 10 number)
          none).significand = number := by
  have value : (Numeral.mk ['0'] (List.replicate zeros '0' ++ Nat.toDigits 10 number)
      none).significand = number := by
    rw [Numeral.significand, List.singleton_append, ← List.cons_append, ← List.replicate_succ,
      Nat.ofDigitChars_append, ofDigitChars_zeros, Nat.zero_mul]
    exact Nat.ofDigitChars_ten_toDigits
  refine ⟨⟨fun char member => ?_, ⟨'0', [], rfl, fun _ => rfl⟩, fun none => ?_, by rwa [value],
    fun _ _ same => (by cases same)⟩, value⟩
  · simp only [List.singleton_append, List.mem_cons, List.mem_append,
      List.mem_replicate] at member
    rcases member with rfl | ⟨-, rfl⟩ | member
    · rfl
    · rfl
    · exact Json.Reading.isDigit_toDigits member
  · exact absurd (List.append_eq_nil_iff.mp none).2 Nat.toDigits_ne_nil

/-- What the parts of a decimal stand for: the decimal itself, or a whole number that has got
a zero after its point.
-/
theorem numeral_spec {decimal : Decimal} (positive : 0 < decimal.digits)
    (short : decimal.digits ≤ 10 ^ 17) (low : -416 ≤ decimal.exponent)
    (high : decimal.exponent ≤ 308)
    : decimal.numeral.Proper
      ∧ (decimal.numeral.significand = decimal.digits
          ∧ decimal.numeral.exponent = decimal.exponent
        ∨ decimal.numeral.exponent < 0) := by
  have nonempty := @Nat.length_toDigits_pos 10 decimal.digits
  have few : (Nat.toDigits 10 decimal.digits).length ≤ 18 :=
    (Nat.length_toDigits_le_iff (by decide) (by decide)).mpr (by omega)
  have small : decimal.digits < Json.Reading.wordLimit := lt_of_le_of_lt short (by decide)
  unfold numeral
  dsimp only
  split
  case isTrue =>
    obtain ⟨proper, value⟩ := @proper_split
      ⟨(Nat.toDigits 10 decimal.digits).take 1, (Nat.toDigits 10 decimal.digits).drop 1,
        some (!(decide (decimal.exponent + (Nat.toDigits 10 decimal.digits).length - 1 < 0)),
          (decimal.exponent + (Nat.toDigits 10 decimal.digits).length - 1).natAbs)⟩ _ positive small
      (List.take_append_drop _ _) (by simp) (fun _ => rfl)
      (fun raising power same => by
        cases same
        change _ < 0x80000000
        omega)
    refine ⟨proper, .inl ⟨value, ?_⟩⟩
    simp only [Numeral.exponent, Numeral.moved, List.length_drop, Bool.not_eq_true',
      decide_eq_false_iff_not]
    split <;> omega
  case isFalse near =>
    split
    case isTrue whole =>
      exact ⟨proper_whole positive (by omega), .inr (show (-1 : Int) < 0 by decide)⟩
    case isFalse =>
      split
      case isTrue =>
        obtain ⟨proper, value⟩ := @proper_split
          ⟨(Nat.toDigits 10 decimal.digits).take
              ((decimal.exponent + (Nat.toDigits 10 decimal.digits).length - 1).toNat + 1),
            (Nat.toDigits 10 decimal.digits).drop
              ((decimal.exponent + (Nat.toDigits 10 decimal.digits).length - 1).toNat + 1),
            none⟩ _ positive small
          (List.take_append_drop _ _) (by simp) (fun empty => by
            rw [List.drop_eq_nil_iff] at empty
            omega)
          (fun _ _ same => by cases same)
        refine ⟨proper, .inl ⟨value, ?_⟩⟩
        simp only [Numeral.exponent, Numeral.moved, List.length_drop]
        omega
      case isFalse =>
        obtain ⟨proper, value⟩ := @proper_tenths decimal.digits
          (-(decimal.exponent + (Nat.toDigits 10 decimal.digits).length - 1) - 1).toNat small
        refine ⟨proper, .inl ⟨value, ?_⟩⟩
        simp only [Numeral.exponent, Numeral.moved, List.length_append, List.length_replicate]
        omega

-----------------------------------------------------------------------------------------
-- Finite numbers
-----------------------------------------------------------------------------------------

/-- A finite number is written as a numeral that can be scaled, with a sign in front if it is
negative.
-/
theorem ofFloat_eq {value : Float} (finite : value.isFinite = true)
    : ∃ (positive : Bool) (numeral : Numeral) (magnitude : Float),
        ofFloat value = (if positive then "" else "-") ++ String.ofList numeral.chars
        ∧ numeral.Proper
        ∧ scaled numeral.significand numeral.exponent = some magnitude := by
  have answers {numeral : Numeral}
      (scales : numeral.exponent < 0
        ∨ (scaled numeral.significand numeral.exponent).isSome = true)
      : ∃ magnitude, scaled numeral.significand numeral.exponent = some magnitude := by
    refine Option.isSome_iff_exists.mp (scales.elim (fun below => ?_) id)
    unfold scaled
    exact Rounding.isSome_go_of_neg below (by omega)
  unfold ofFloat
  dsimp only
  refine ⟨decide (value.toBits < 0x8000000000000000), ?_⟩
  simp only [decide_eq_true_eq]
  by_cases zero : (Binary.ofBits value.toBits).significand = 0
  · have proper : (Numeral.mk ['0'] ['0'] none).Proper := (@proper_tenths 0 0 (by decide)).1
    obtain ⟨magnitude, scales⟩ := @answers ⟨['0'], ['0'], none⟩ (.inl (by decide))
    exact ⟨⟨['0'], ['0'], none⟩, magnitude, by rw [if_pos zero]; rfl, proper, scales⟩
  · have range := Binary.inRange_ofBits finite zero
    have fits := fits_shortest range
    obtain ⟨proper, value⟩ := numeral_spec fits.positive fits.short fits.low
      (fits.exponent_le range)
    obtain ⟨magnitude, scales⟩ := answers (value.symm.imp_right fun ⟨digits, exponent⟩ => by
      rw [digits, exponent]
      exact isSome_scaled_shortest range)
    exact ⟨_, magnitude, by rw [if_neg zero, text_eq], proper, scales⟩

end Decimal

namespace Json

open Reading

/-- The characters of numerals. -/
def isNumeral (char : Char) : Bool :=
  char.isDigit || char == '.' || char == 'e' || char == '+' || char == '-'

theorem ascii_of_isNumeral {char : Char} (numeral : isNumeral char = true)
    : char.val.toNat ≤ 127 ∧ IsPlain (byteOf char) := by
  unfold isNumeral at numeral
  simp only [Bool.or_eq_true, beq_iff_eq] at numeral
  rcases numeral with (((digit | rfl) | rfl) | rfl) | rfl
  · obtain ⟨same, lower, upper⟩ := toNat_byteOf digit
    have code : char.val.toNat = char.toNat := rfl
    refine ⟨by omega, ?_⟩
    unfold IsPlain
    simp only [UInt8.lt_iff_toNat_lt, ne_eq, ← UInt8.toNat_inj, same]
    refine ⟨?_, ?_, ?_, ?_⟩ <;> simp <;> omega
  all_goals decide

theorem isNumeral_of_isDigit {char : Char} (digit : char.isDigit = true)
    : isNumeral char = true := by
  simp [isNumeral, digit]

theorem isNumeral_chars {numeral : Numeral} (proper : numeral.Proper)
    : ∀ char ∈ numeral.chars, isNumeral char = true := by
  intro char member
  rw [Numeral.chars, List.append_assoc] at member
  rcases List.mem_append.mp member with whole | member
  · exact isNumeral_of_isDigit (proper.digits char (List.mem_append_left _ whole))
  rcases List.mem_append.mp member with fraction | power
  · split at fraction
    · cases fraction
    · rcases List.mem_cons.mp fraction with rfl | fraction
      · rfl
      · exact isNumeral_of_isDigit (proper.digits char (List.mem_append_right _ fraction))
  · cases sign : numeral.power with
    | none =>
        rw [sign] at power
        cases power
    | some parts =>
        obtain ⟨raising, value⟩ := parts
        rw [sign] at power
        rcases List.mem_cons.mp power with rfl | power
        · rfl
        rcases List.mem_cons.mp power with rfl | digits
        · cases raising <;> rfl
        · exact isNumeral_of_isDigit (isDigit_toDigits digits)

/-- The bytes of characters of ASCII. -/
theorem ofText_ascii {chars : List Char} (ascii : ∀ char ∈ chars, char.val.toNat ≤ 127)
    : Bytes.ofText (String.ofList chars) = chars.map byteOf := by
  rw [Bytes.ofText_ofList]
  induction chars with
  | nil => rfl
  | cons char chars ih =>
      obtain ⟨first, later⟩ := List.forall_mem_cons.mp ascii
      rw [List.flatMap_cons, ih later, String.utf8EncodeChar, if_pos first]
      rfl

/-- A finite real number is read again as some real number. -/
theorem exists_rereads {value : Float} (finite : value.isFinite = true)
    : ∃ again, Rereads value again := by
  obtain ⟨positive, numeral, magnitude, text, proper, scales⟩ := Decimal.ofFloat_eq finite
  have numerals := isNumeral_chars proper
  have bytes : Bytes.ofText (Decimal.ofFloat value)
      = (if positive then [] else [0x2D]) ++ numeral.chars.map byteOf := by
    rw [text, Bytes.ofText_append,
      ofText_ascii fun char member => (ascii_of_isNumeral (numerals char member)).1]
    cases positive <;> rfl
  have begins : ∃ first tail, numeral.chars.map byteOf = first :: tail ∧ isDigit first = true := by
    obtain ⟨first, chars, split, -⟩ := proper.lead
    refine ⟨byteOf first, _, by rw [Numeral.chars, split]; rfl, isDigit_byteOf ?_⟩
    exact proper.digits first (List.mem_append_left _ (split ▸ List.mem_cons_self))
  refine ⟨if positive then magnitude else -magnitude, ?_, ?_, ?_⟩
  · intro byte member
    rw [bytes] at member
    rcases List.mem_append.mp member with sign | digits
    · cases positive with
      | true => cases sign
      | false =>
          obtain rfl := List.mem_singleton.mp sign
          decide
    · obtain ⟨char, among, rfl⟩ := List.mem_map.mp digits
      exact (ascii_of_isNumeral (numerals char among)).2
  · rw [bytes]
    cases positive with
    | true =>
        obtain ⟨first, tail, split, digit⟩ := begins
        exact split ▸ opens_of_isDigit digit tail
    | false => exact ⟨0x2D, _, rfl, by decide, by decide⟩
  · intro inner blanks blank byte closing rest
    rw [bytes]
    cases positive with
    | true => exact takes_digitsValue blank begins (takes_numeral proper closing scales rest)
    | false =>
        refine .bind (takes_peekToken blank (by decide) _) (.step (takes_skip _ _) ?_)
        exact takes_numeral proper closing scales rest

/-- There is one way in which all finite real numbers are read again. -/
theorem exists_again
    : ∃ again : Float → Float, ∀ value, IsFinite value → Rereads value (again value) := by
  have each (value : Float) : ∃ again, IsFinite value → Rereads value again := by
    by_cases finite : IsFinite value
    · exact (exists_rereads finite).imp fun _ rereads _ => rereads
    · exact ⟨value, fun holds => absurd holds finite⟩
  choose again rereads using each
  exact ⟨again, rereads⟩

end Json

end RouteDesk
