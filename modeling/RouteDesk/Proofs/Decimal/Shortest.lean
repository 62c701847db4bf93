import RouteDesk.Json.Decimal
import Mathlib.Tactic

/-! The decimal form of a binary number: seventeen digits are always enough, and whatever is chosen
lies among the numbers that are rounded to the binary number.
-/

namespace RouteDesk

/-- What a binary number stands for. -/
def Binary.value (number : Binary) : ℚ :=
  number.significand * 2 ^ number.power

/-- A positive number in the range of finite floating-point numbers. Only a power of two is
nearer to the number below it than to the one above it.
-/
structure Binary.InRange (number : Binary) : Prop where
  positive : 0 < number.significand
  small : number.significand < 2 ^ 53
  least : -1074 ≤ number.power
  most : number.power ≤ 971
  narrow : number.narrowBelow = true → number.significand = 2 ^ 52

namespace Decimal

/-- What a decimal stands for. -/
def value (decimal : Decimal) : ℚ :=
  decimal.digits * 10 ^ decimal.exponent

-----------------------------------------------------------------------------------------
-- Comparisons
-----------------------------------------------------------------------------------------

/-- A power times the whole power that makes up for a negative exponent is whole. -/
theorem zpow_mul_toNat {base : ℚ} (nonzero : base ≠ 0) (exponent : Int)
    : base ^ exponent * base ^ (-exponent).toNat = base ^ exponent.toNat := by
  rw [← zpow_natCast, ← zpow_natCast, ← zpow_add₀ nonzero]
  congr 1
  omega

theorem cast_tenTo (exponent : Nat) : ((tenTo exponent : Nat) : ℚ) = 10 ^ exponent := by
  simp [tenTo]

theorem cast_twoTo (exponent : Nat) : ((twoTo exponent : Nat) : ℚ) = 2 ^ exponent := by
  simp [twoTo]

/-- Decimals are compared by what they stand for. Witness: both sides of the comparison are
multiplied by the same whole number.
-/
theorem compareScaled_eq (decimal : Decimal) (count : Nat) (power : Int)
    : decimal.compareScaled count power
      = compare decimal.value ((count : ℚ) * 2 ^ power) := by
  have common : (0 : ℚ) < 10 ^ (-decimal.exponent).toNat * 2 ^ (-power).toNat := by positivity
  have left : ((decimal.digits * tenTo decimal.exponent.toNat * twoTo (-power).toNat : Nat) : ℚ)
      = decimal.value * (10 ^ (-decimal.exponent).toNat * 2 ^ (-power).toNat) := by
    push_cast [cast_tenTo, cast_twoTo]
    rw [← zpow_mul_toNat (by norm_num) decimal.exponent, value]
    ring
  have right : ((count * twoTo power.toNat * tenTo (-decimal.exponent).toNat : Nat) : ℚ)
      = (count * 2 ^ power) * (10 ^ (-decimal.exponent).toNat * 2 ^ (-power).toNat) := by
    push_cast [cast_tenTo, cast_twoTo]
    rw [← zpow_mul_toNat (by norm_num) power]
    ring
  unfold compareScaled
  generalize decimal.digits * tenTo decimal.exponent.toNat * twoTo (-power).toNat = first at left
  generalize count * twoTo power.toNat * tenTo (-decimal.exponent).toNat = second at right
  rcases lt_trichotomy first second with less | same | more
  · have : decimal.value < count * 2 ^ power := by
      rw [← mul_lt_mul_iff_left₀ common, ← left, ← right]
      exact_mod_cast less
    rw [compare_lt_iff_lt.mpr less, compare_lt_iff_lt.mpr this]
  · have : decimal.value = count * 2 ^ power := by
      refine mul_right_cancel₀ common.ne' ?_
      rw [← left, ← right, same]
    rw [compare_eq_iff_eq.mpr same, compare_eq_iff_eq.mpr this]
  · have : count * 2 ^ power < decimal.value := by
      rw [← mul_lt_mul_iff_left₀ common, ← left, ← right]
      exact_mod_cast more
    rw [compare_gt_iff_gt.mpr more, compare_gt_iff_gt.mpr this]

/-- The lower end of the numbers that are rounded to a binary number, in quarters of its unit. -/
def low (number : Binary) : Nat :=
  4 * number.significand - if number.narrowBelow then 1 else 2

/-- What reads back is within half a unit above the number. -/
theorem value_le_of_readsBack {decimal : Decimal} {number : Binary}
    (reads : decimal.readsBack number = true)
    : decimal.value ≤ (4 * number.significand + 2 : Nat) * 2 ^ (number.power - 2) := by
  unfold readsBack at reads
  simp only [compareScaled_eq, Bool.and_eq_true, Bool.or_eq_true, beq_iff_eq] at reads
  rcases reads.2 with less | ⟨-, same⟩
  · exact (compare_lt_iff_lt.mp less).le
  · exact (compare_eq_iff_eq.mp same).le

/-- Zero reads back as no positive number. -/
theorem digits_pos_of_readsBack {decimal : Decimal} {number : Binary}
    (positive : 0 < number.significand) (reads : decimal.readsBack number = true)
    : 0 < decimal.digits := by
  refine Nat.pos_of_ne_zero fun zero => ?_
  have nothing : decimal.value = 0 := by simp [value, zero]
  have above : 0 < low number := by
    unfold low
    split <;> omega
  have below : (0 : ℚ) < low number * 2 ^ (number.power - 2) := by positivity
  unfold readsBack at reads
  simp only [compareScaled_eq, nothing, Bool.and_eq_true, Bool.or_eq_true, beq_iff_eq] at reads
  rcases reads.1 with more | ⟨-, same⟩
  · exact absurd (compare_gt_iff_gt.mp more) (not_lt.mpr below.le)
  · exact absurd (compare_eq_iff_eq.mp same) below.ne

/-- What lies strictly between the ends reads back. -/
theorem readsBack_of_between {decimal : Decimal} {number : Binary}
    (above : (low number : ℚ) * 2 ^ (number.power - 2) < decimal.value)
    (below : decimal.value < (4 * number.significand + 2 : Nat) * 2 ^ (number.power - 2))
    : decimal.readsBack number = true := by
  unfold readsBack
  simp only [compareScaled_eq, Bool.and_eq_true, Bool.or_eq_true, beq_iff_eq]
  exact ⟨.inl (compare_gt_iff_gt.mpr above), .inl (compare_lt_iff_lt.mpr below)⟩

-----------------------------------------------------------------------------------------
-- The scale
-----------------------------------------------------------------------------------------

/-- The number of digits of a positive whole number tells its power of ten. -/
theorem length_toDigits_spec {number : Nat} (positive : 0 < number)
    : 10 ^ ((Nat.toDigits 10 number).length - 1) ≤ number
      ∧ number < 10 ^ (Nat.toDigits 10 number).length := by
  have nonempty := @Nat.length_toDigits_pos 10 number
  have fewer {count : Nat} (some' : 0 < count) :=
    @Nat.length_toDigits_le_iff 10 number count (by decide) some'
  refine ⟨?_, (fewer nonempty).mp (Nat.le_refl _)⟩
  by_contra less
  rw [Nat.not_le] at less
  by_cases single : (Nat.toDigits 10 number).length - 1 = 0
  · rw [single] at less
    omega
  · have := (fewer (Nat.pos_of_ne_zero single)).mpr less
    omega

/-- Dividing by the power of two that makes up for a negative one gives the whole part. -/
theorem value_eq_div (number : Binary)
    : number.value
      = ((number.significand * twoTo number.power.toNat : Nat) : ℚ)
        / (twoTo (-number.power).toNat : Nat) := by
  rw [eq_div_iff (by simp [twoTo]), Binary.value]
  push_cast [cast_twoTo]
  rw [mul_assoc, zpow_mul_toNat (by norm_num)]

theorem twoTo_le_twoTo {first second : Nat} (ordered : first ≤ second)
    : twoTo first ≤ twoTo second :=
  Nat.pow_le_pow_right (by decide) ordered

/-- A positive number below one is at least one after some places. -/
theorem exists_place {number : Binary} (range : number.InRange)
    : ∃ places, ((List.range 400).find? fun places =>
          twoTo (-number.power).toNat ≤ number.significand * tenTo places) = some places := by
  cases found : (List.range 400).find? fun places =>
      twoTo (-number.power).toNat ≤ number.significand * tenTo places with
  | some places => exact ⟨places, rfl⟩
  | none =>
      have fits : twoTo (-number.power).toNat ≤ twoTo 1074 :=
        twoTo_le_twoTo (by have := range.least; omega)
      have enough : twoTo 1074 ≤ tenTo 399 := by decide +kernel
      have reached := (fits.trans enough).trans (Nat.le_mul_of_pos_left _ range.positive)
      have member : 399 ∈ List.range 400 := List.mem_range.mpr (by decide)
      exact absurd (decide_eq_true reached) (List.find?_eq_none.mp found 399 member)

/-- The number of digits of the whole part of a quotient tells the quotient's power of ten. -/
theorem quotient_spec {count size : Nat} (above : 0 < size) (nonzero : count / size ≠ 0)
    : (10 : ℚ) ^ (((Nat.toDigits 10 (count / size)).length : Int) - 1) ≤ (count : ℚ) / size
      ∧ (count : ℚ) / size < 10 ^ ((Nat.toDigits 10 (count / size)).length : Int) := by
  have aboveQ : (0 : ℚ) < size := by exact_mod_cast above
  have nonempty := @Nat.length_toDigits_pos 10 (count / size)
  obtain ⟨lower, upper⟩ := length_toDigits_spec (Nat.pos_of_ne_zero nonzero)
  generalize (Nat.toDigits 10 (count / size)).length = length at lower upper nonempty
  rw [Nat.le_div_iff_mul_le above] at lower
  rw [Nat.div_lt_iff_lt_mul above] at upper
  constructor
  · rw [le_div_iff₀ aboveQ, show (length : Int) - 1 = (length - 1 : Nat) by omega, zpow_natCast]
    exact_mod_cast lower
  · rw [div_lt_iff₀ aboveQ, zpow_natCast]
    exact_mod_cast upper

/-- How many places a quotient below one is moved to be at least one tells its power of ten. -/
theorem places_spec {count size places : Nat} (above : 0 < size)
    (reached : size ≤ count * tenTo (places + 1)) (short : count * tenTo places < size)
    : (10 : ℚ) ^ ((1 : Int) - (places + 1 : Nat) - 1) ≤ (count : ℚ) / size
      ∧ (count : ℚ) / size < 10 ^ ((1 : Int) - (places + 1 : Nat)) := by
  have aboveQ : (0 : ℚ) < size := by exact_mod_cast above
  constructor
  · rw [le_div_iff₀ aboveQ, show (1 : Int) - (places + 1 : Nat) - 1 = -(places + 1 : Nat) by omega,
      zpow_neg, inv_mul_le_iff₀ (by positivity), zpow_natCast, ← cast_tenTo, mul_comm]
    exact_mod_cast reached
  · rw [div_lt_iff₀ aboveQ, show (1 : Int) - (places + 1 : Nat) = -(places : Nat) by omega,
      zpow_neg, lt_inv_mul_iff₀ (by positivity), zpow_natCast, ← cast_tenTo, mul_comm]
    exact_mod_cast short

/-- The scale is the exponent of the power of ten just above the number. -/
theorem scale_spec {number : Binary} (range : number.InRange)
    : (10 : ℚ) ^ (scale number - 1) ≤ number.value ∧ number.value < 10 ^ scale number
      ∧ -399 ≤ scale number := by
  have above : 0 < twoTo (-number.power).toNat := Nat.two_pow_pos _
  rw [value_eq_div]
  unfold scale
  dsimp only
  split
  case isTrue nonzero =>
    obtain ⟨lower, upper⟩ := quotient_spec above nonzero
    exact ⟨lower, upper, by omega⟩
  case isFalse zero =>
    have less : number.significand * twoTo number.power.toNat < twoTo (-number.power).toNat :=
      (Nat.div_eq_zero_iff_lt above).mp (not_not.mp zero)
    have whole : number.power.toNat = 0 := by
      by_contra raised
      have positive := range.positive
      have one : twoTo (-number.power).toNat = 1 := by
        rw [show (-number.power).toNat = 0 by omega]
        rfl
      have : 0 < number.significand * twoTo number.power.toNat :=
        Nat.mul_pos positive (Nat.two_pow_pos _)
      omega
    have same : number.significand * twoTo number.power.toNat = number.significand := by
      rw [whole]
      exact Nat.mul_one _
    obtain ⟨places, found⟩ := exists_place range
    obtain ⟨reached, member, before⟩ := List.find?_range_eq_some.mp found
    rw [found, Option.getD_some]
    rw [same] at less ⊢
    have reached := of_decide_eq_true reached
    cases places with
    | zero =>
        rw [show tenTo 0 = 1 from rfl] at reached
        omega
    | succ places =>
        have short : number.significand * tenTo places < twoTo (-number.power).toNat := by
          simpa using before places (Nat.lt_succ_self _)
        have few := List.mem_range.mp member
        obtain ⟨lower, upper⟩ := places_spec above reached short
        exact ⟨lower, upper, by omega⟩

-----------------------------------------------------------------------------------------
-- Neighbours
-----------------------------------------------------------------------------------------

/-- A number lies between two neighbouring multiples of a power of ten. -/
theorem floorAt_spec (number : Binary) (exponent : Int)
    : (floorAt number exponent).value ≤ number.value
      ∧ number.value < (floorAt number exponent).value + 10 ^ exponent := by
  have aboveN : 0 < twoTo (-number.power).toNat * tenTo exponent.toNat :=
    Nat.mul_pos (Nat.two_pow_pos _) (Nat.pow_pos (by decide))
  have common : (0 : ℚ) < 2 ^ (-number.power).toNat * 10 ^ (-exponent).toNat := by positivity
  have exact' : ((number.significand * twoTo number.power.toNat
        * tenTo (-exponent).toNat : Nat) : ℚ)
      = number.value * (2 ^ (-number.power).toNat * 10 ^ (-exponent).toNat) := by
    push_cast [cast_tenTo, cast_twoTo]
    rw [Binary.value, ← zpow_mul_toNat (by norm_num) number.power]
    ring
  have unit : ((twoTo (-number.power).toNat * tenTo exponent.toNat : Nat) : ℚ)
      = 10 ^ exponent * (2 ^ (-number.power).toNat * 10 ^ (-exponent).toNat) := by
    push_cast [cast_tenTo, cast_twoTo]
    rw [← zpow_mul_toNat (by norm_num) exponent]
    ring
  have lower := Nat.div_mul_le_self
    (number.significand * twoTo number.power.toNat * tenTo (-exponent).toNat)
    (twoTo (-number.power).toNat * tenTo exponent.toNat)
  have upper := Nat.lt_div_mul_add aboveN
    (a := number.significand * twoTo number.power.toNat * tenTo (-exponent).toNat)
  unfold floorAt value
  dsimp only
  generalize number.significand * twoTo number.power.toNat * tenTo (-exponent).toNat = count
    at exact' lower upper ⊢
  generalize twoTo (-number.power).toNat * tenTo exponent.toNat = size
    at unit lower upper ⊢
  have lowerQ : ((count / size : Nat) : ℚ) * size ≤ count := by exact_mod_cast lower
  have upperQ : (count : ℚ) < ((count / size : Nat) : ℚ) * size + size := by exact_mod_cast upper
  rw [unit, exact'] at lowerQ upperQ
  constructor
  · rw [← mul_le_mul_iff_left₀ common]
    linarith
  · rw [← mul_lt_mul_iff_left₀ common]
    linarith

/-- What is chosen reads back, and is one of the neighbours. -/
theorem nearestAt_spec {number : Binary} {exponent : Int} {chosen : Decimal}
    (found : nearestAt number exponent = some chosen)
    : chosen.readsBack number = true
      ∧ chosen.exponent = exponent
      ∧ chosen.digits ≤ (floorAt number exponent).digits + 1 := by
  unfold nearestAt at found
  dsimp only at found
  have lower (reads : (floorAt number exponent).readsBack number = true)
      (same : floorAt number exponent = chosen)
      : chosen.readsBack number = true ∧ chosen.exponent = exponent
        ∧ chosen.digits ≤ (floorAt number exponent).digits + 1 :=
    same ▸ ⟨reads, rfl, Nat.le_succ _⟩
  have upper
      (reads : (Decimal.mk ((floorAt number exponent).digits + 1) exponent).readsBack number = true)
      (same : ⟨(floorAt number exponent).digits + 1, exponent⟩ = chosen)
      : chosen.readsBack number = true ∧ chosen.exponent = exponent
        ∧ chosen.digits ≤ (floorAt number exponent).digits + 1 :=
    same ▸ ⟨reads, rfl, Nat.le_refl _⟩
  split at found
  case h_1 readsLower readsUpper =>
    split at found
    · exact lower readsLower (Option.some.inj found)
    · exact upper readsUpper (Option.some.inj found)
    · split at found
      · exact lower readsLower (Option.some.inj found)
      · exact upper readsUpper (Option.some.inj found)
  case h_2 reads _ => exact lower reads (Option.some.inj found)
  case h_3 _ reads => exact upper reads (Option.some.inj found)
  case h_4 => cases found

/-- If one of the neighbours reads back then one is chosen. -/
theorem isSome_nearestAt {number : Binary} {exponent : Int}
    (reads : (floorAt number exponent).readsBack number = true
      ∨ (Decimal.mk ((floorAt number exponent).digits + 1) exponent).readsBack number = true)
    : (nearestAt number exponent).isSome = true := by
  unfold nearestAt
  dsimp only
  split
  · split <;> rfl
  · rfl
  · rfl
  case h_4 notLower notUpper =>
    rw [notLower, notUpper] at reads
    rcases reads with impossible | impossible <;> cases impossible

/-- The unit of seventeen digits is less than the gap between the ends. -/
theorem gap_spec {number : Binary} (range : number.InRange) {unit : ℚ}
    (fine : unit * 10 ^ 16 ≤ 4 * number.significand * 2 ^ (number.power - 2))
    : (low number : ℚ) * 2 ^ (number.power - 2)
        < 4 * number.significand * 2 ^ (number.power - 2)
      ∧ (low number : ℚ) * 2 ^ (number.power - 2) + unit
        < (4 * number.significand + 2 : Nat) * 2 ^ (number.power - 2) := by
  have quarter : (0 : ℚ) < 2 ^ (number.power - 2) := by positivity
  have positive := range.positive
  have small : (number.significand : ℚ) < 2 ^ 53 := by exact_mod_cast range.small
  push_cast
  generalize (2 : ℚ) ^ (number.power - 2) = part at fine quarter ⊢
  cases narrow : number.narrowBelow with
  | true =>
      have exact' : (number.significand : ℚ) = 2 ^ 52 := by exact_mod_cast range.narrow narrow
      have ends : (low number : ℚ) = 4 * number.significand - 1 := by
        rw [low, narrow, if_pos rfl, Nat.cast_sub (by omega)]
        push_cast
        ring
      rw [exact'] at fine ends ⊢
      rw [ends]
      constructor <;> nlinarith
  | false =>
      have ends : (low number : ℚ) = 4 * number.significand - 2 := by
        rw [low, narrow, if_neg (by decide), Nat.cast_sub (by omega)]
        push_cast
        ring
      rw [ends]
      constructor <;> nlinarith

/-- Seventeen digits are always enough. Witness: their unit is less than what is rounded to the
number spans, so that one of the neighbours is in it.
-/
theorem isSome_nearestAt_seventeen {number : Binary} (range : number.InRange)
    : (nearestAt number (scale number - 17)).isSome = true := by
  obtain ⟨least, -, -⟩ := scale_spec range
  obtain ⟨lower, upper⟩ := floorAt_spec number (scale number - 17)
  have unit : (0 : ℚ) < 10 ^ (scale number - 17) := by positivity
  have quarter : (0 : ℚ) < 2 ^ (number.power - 2) := by positivity
  have split : number.value = 4 * number.significand * 2 ^ (number.power - 2) := by
    rw [Binary.value, zpow_sub₀ (by norm_num)]
    norm_num
    ring
  have fine : (10 : ℚ) ^ (scale number - 17) * 10 ^ 16 ≤ number.value := by
    rw [← zpow_natCast, ← zpow_add₀ (by norm_num)]
    convert least using 2
    push_cast
    ring
  have next : (Decimal.mk ((floorAt number (scale number - 17)).digits + 1)
        (scale number - 17)).value
      = (floorAt number (scale number - 17)).value + 10 ^ (scale number - 17) := by
    unfold value
    push_cast
    rw [add_mul, one_mul]
    rfl
  obtain ⟨under, gap⟩ := gap_spec range (split ▸ fine)
  rw [← split] at under
  refine isSome_nearestAt ?_
  by_cases reached
      : (low number : ℚ) * 2 ^ (number.power - 2) < (floorAt number (scale number - 17)).value
  · refine .inl (readsBack_of_between reached (lower.trans_lt ?_))
    rw [split]
    push_cast
    linarith
  · refine .inr (readsBack_of_between ?_ ?_)
    · rw [next]
      exact under.trans upper
    · rw [next]
      exact lt_of_le_of_lt (add_le_add_left (not_lt.mp reached) _) gap

-----------------------------------------------------------------------------------------
-- The shortest form
-----------------------------------------------------------------------------------------

/-- Dropping zeros at the end keeps the number, by induction on how many may be dropped. -/
theorem stripped_go_spec (limit : Nat) {decimal : Decimal} (positive : 0 < decimal.digits)
    : (stripped.go limit decimal).value = decimal.value
      ∧ 0 < (stripped.go limit decimal).digits
      ∧ (stripped.go limit decimal).digits ≤ decimal.digits
      ∧ decimal.exponent ≤ (stripped.go limit decimal).exponent := by
  induction limit generalizing decimal with
  | zero => exact ⟨rfl, positive, Nat.le_refl _, Int.le_refl _⟩
  | succ limit ih =>
      rw [stripped.go]
      split
      case isTrue ends =>
        obtain ⟨same, kept, less, raised⟩ := @ih ⟨decimal.digits / 10, decimal.exponent + 1⟩
          (by dsimp only; omega)
        have whole : decimal.digits = 10 * (decimal.digits / 10) := by omega
        refine ⟨same.trans ?_, kept, less.trans (Nat.div_le_self _ _), ?_⟩
        · have := congrArg (Nat.cast : Nat → ℚ) whole
          push_cast at this
          unfold value
          dsimp only
          rw [zpow_add_one₀ (by norm_num), this]
          ring
        · dsimp only at raised
          omega
      case isFalse => exact ⟨rfl, positive, Nat.le_refl _, Int.le_refl _⟩

/-- A decimal that is short and no larger than what is rounded to the binary number. -/
structure Fits (decimal : Decimal) (number : Binary) : Prop where
  positive : 0 < decimal.digits
  short : decimal.digits ≤ 10 ^ 17
  low : -416 ≤ decimal.exponent
  value : decimal.value ≤ (4 * number.significand + 2 : Nat) * 2 ^ (number.power - 2)

/-- The shortest form of a number in range fits it. -/
theorem fits_shortest {number : Binary} (range : number.InRange)
    : (shortest number).Fits number := by
  obtain ⟨-, below, least⟩ := scale_spec range
  have enough : ((List.range 17).findSome? fun (more : Nat) =>
      nearestAt number (scale number - 1 - more)).isSome = true := by
    rw [List.findSome?_isSome_iff]
    refine ⟨16, List.mem_range.mpr (by decide), ?_⟩
    rw [show scale number - 1 - ((16 : Nat) : Int) = scale number - 17 by omega]
    exact isSome_nearestAt_seventeen range
  obtain ⟨chosen, found⟩ := Option.isSome_iff_exists.mp enough
  obtain ⟨more, member, nearest⟩ := List.exists_of_findSome?_eq_some found
  obtain ⟨reads, exponent, near⟩ := nearestAt_spec nearest
  have few := List.mem_range.mp member
  have positive := digits_pos_of_readsBack range.positive reads
  obtain ⟨same, kept, less, raised⟩ := stripped_go_spec 20 positive
  have digits : (floorAt number (scale number - 1 - more)).digits < 10 ^ (more + 1) := by
    have less := (floorAt_spec number (scale number - 1 - more)).1.trans_lt below
    have whole : (10 : ℚ) ^ scale number
        = 10 ^ (more + 1) * 10 ^ (scale number - 1 - more) := by
      rw [← zpow_natCast, ← zpow_add₀ (by norm_num)]
      congr 1
      push_cast
      ring
    rw [whole] at less
    exact_mod_cast lt_of_mul_lt_mul_right less (by positivity)
  unfold shortest
  dsimp only
  rw [found, Option.getD_some]
  exact {
    positive := kept
    short := less.trans (near.trans (le_trans digits (Nat.pow_le_pow_right (by decide) (by omega))))
    low := by
      rw [exponent] at raised
      unfold stripped
      omega
    value := by
      unfold stripped
      rw [same]
      exact value_le_of_readsBack reads }

end Decimal

end RouteDesk
