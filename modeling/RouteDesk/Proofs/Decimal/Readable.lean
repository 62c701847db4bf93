import RouteDesk.Proofs.Decimal.Scaling
import RouteDesk.Proofs.Decimal.Shortest

/-! The decimal form of a finite floating-point number can be read: what it stands for is never so
large that it would be out of range.
-/

namespace RouteDesk

/-- The exponent field stands above the 52 bits of the fraction. -/
theorem field_eq (value : Float)
    : Rounding.field value = value.toBits.toNat / twoTo 52 % twoTo 11 := by
  unfold Rounding.field Float.Model.UnpackedFloat.unpackExponent
  rw [BitVec.toNat_cast, BitVec.extractLsb_toNat]
  rw [Nat.shiftRight_eq_div_pow]
  rfl

/-- The bits of a finite number stand for a number in range, unless they stand for zero. -/
theorem Binary.inRange_ofBits {value : Float} (finite : value.isFinite = true)
    (nonzero : (Binary.ofBits value.toBits).significand ≠ 0)
    : (Binary.ofBits value.toBits).InRange := by
  have full := (Rounding.isFinite_iff value).mp finite
  rw [field_eq] at full
  have fraction : value.toBits.toNat % twoTo 52 < 2 ^ 52 := Nat.mod_lt _ (by decide)
  have exponent : value.toBits.toNat / twoTo 52 % twoTo 11 < 2048 := Nat.mod_lt _ (by decide)
  unfold Binary.ofBits at nonzero ⊢
  dsimp only at nonzero ⊢
  generalize value.toBits.toNat / twoTo 52 % twoTo 11 = field at full exponent nonzero ⊢
  generalize value.toBits.toNat % twoTo 52 = rest at fraction nonzero ⊢
  split
  case isTrue zero =>
    rw [if_pos zero] at nonzero
    exact ⟨Nat.pos_of_ne_zero nonzero, by dsimp only; omega, by dsimp only; omega,
      by dsimp only; omega, fun narrow => by cases narrow⟩
  case isFalse normal =>
    have unit : twoTo 52 = 2 ^ 52 := rfl
    refine ⟨?_, ?_, ?_, ?_, fun narrow => ?_⟩ <;> dsimp only <;> try omega
    simp only [Bool.and_eq_true, beq_iff_eq] at narrow
    rw [narrow.1, unit, Nat.add_zero]

namespace Decimal

/-- The two largest numbers, which other bounds do not cover. -/
theorem isSome_scaled_largest
    : ∀ significand ∈ [2 ^ 53 - 2, 2 ^ 53 - 1],
        (scaled (shortest ⟨significand, 971, false⟩).digits
          (shortest ⟨significand, 971, false⟩).exponent).isSome = true := by
  decide +kernel

/-- A decimal that fits a number in range has no large exponent. -/
theorem Fits.exponent_le {decimal : Decimal} {number : Binary} (fits : decimal.Fits number)
    (range : number.InRange)
    : decimal.exponent ≤ 308 := by
  have one : (1 : ℚ) ≤ decimal.digits := by exact_mod_cast fits.positive
  have small : ((4 * number.significand + 2 : Nat) : ℚ) ≤ 2 ^ 55 := by
    have := range.small
    exact_mod_cast (by omega : 4 * number.significand + 2 ≤ 2 ^ 55)
  have size : (2 : ℚ) ^ (number.power - 2) ≤ 2 ^ (969 : Int) :=
    zpow_le_zpow_right₀ (by norm_num) (by have := range.most; omega)
  have largest : twoTo 1024 < tenTo 309 := by decide +kernel
  have less : (10 : ℚ) ^ decimal.exponent < 10 ^ (309 : Int) :=
    calc
      (10 : ℚ) ^ decimal.exponent ≤ decimal.value :=
        le_mul_of_one_le_left (by positivity) one
      _ ≤ (4 * number.significand + 2 : Nat) * 2 ^ (number.power - 2) := fits.value
      _ ≤ 2 ^ (55 : Int) * 2 ^ (969 : Int) := by
        rw [show ((2 : ℚ) ^ (55 : Int)) = 2 ^ 55 from rfl]
        gcongr
      _ = (twoTo 1024 : Nat) := by
        rw [← zpow_add₀ (by norm_num), cast_twoTo, ← zpow_natCast]
        congr 1
      _ < (tenTo 309 : Nat) := by exact_mod_cast largest
      _ = 10 ^ (309 : Int) := by
        rw [cast_tenTo, ← zpow_natCast]
        congr 1
  exact Int.lt_add_one_iff.mp ((zpow_lt_zpow_iff_right₀ (by norm_num)).mp less)

/-- Rounding twice keeps what fits a number in range, unless that is one of the two largest. -/
theorem Fits.value_lt {decimal : Decimal} {number : Binary} (fits : decimal.Fits number)
    (range : number.InRange)
    (smaller : number.power ≤ 970 ∨ number.significand ≤ 2 ^ 53 - 3)
    : decimal.value * (1 + 1 / 2 ^ 53) ^ 2 < (2 ^ 54 - 1) * 2 ^ (970 : Int) := by
  have split : ((4 * number.significand + 2 : Nat) : ℚ) * 2 ^ (number.power - 2)
      = (2 * number.significand + 1) * 2 ^ (number.power - 1) := by
    rw [show number.power - 2 = number.power - 1 - 1 by omega, zpow_sub_one₀ (by norm_num)]
    push_cast
    ring
  have below := fits.value
  rw [split] at below
  have double : (2 : ℚ) ^ (970 : Int) = 2 * 2 ^ (969 : Int) := by
    rw [show (970 : Int) = 969 + 1 from rfl, zpow_add_one₀ (by norm_num), mul_comm]
  have unit : (0 : ℚ) < 2 ^ (969 : Int) := by positivity
  rw [double]
  rcases smaller with low | short
  · have size : (2 : ℚ) ^ (number.power - 1) ≤ 2 ^ (969 : Int) :=
      zpow_le_zpow_right₀ (by norm_num) (by omega)
    generalize (2 : ℚ) ^ (969 : Int) = part at size unit ⊢
    have small : (2 * number.significand + 1 : ℚ) ≤ 2 ^ 54 - 1 := by
      have := range.small
      have : (2 * number.significand + 2 : ℚ) ≤ 2 ^ 54 := by
        exact_mod_cast (by omega : 2 * number.significand + 2 ≤ 2 ^ 54)
      linarith
    calc
      decimal.value * (1 + 1 / 2 ^ 53) ^ 2
          ≤ (2 ^ 54 - 1) * part * (1 + 1 / 2 ^ 53) ^ 2 := by
        gcongr
        exact below.trans (by gcongr)
      _ < (2 ^ 54 - 1) * (2 * part) := by linarith
  · have size : (2 : ℚ) ^ (number.power - 1) ≤ 2 ^ (970 : Int) :=
      zpow_le_zpow_right₀ (by norm_num) (by have := range.most; omega)
    rw [double] at size
    generalize (2 : ℚ) ^ (969 : Int) = part at size unit ⊢
    have small : (2 * number.significand + 1 : ℚ) ≤ 2 ^ 54 - 5 := by
      have : (2 * number.significand + 6 : ℚ) ≤ 2 ^ 54 := by
        exact_mod_cast (by omega : 2 * number.significand + 6 ≤ 2 ^ 54)
      linarith
    calc
      decimal.value * (1 + 1 / 2 ^ 53) ^ 2
          ≤ (2 ^ 54 - 5) * (2 * part) * (1 + 1 / 2 ^ 53) ^ 2 := by
        gcongr
        exact below.trans (by gcongr)
      _ < (2 ^ 54 - 1) * (2 * part) := by linarith

/-- The shortest form of a number in range is read as some number. -/
theorem isSome_scaled_shortest {number : Binary} (range : number.InRange)
    : (scaled (shortest number).digits (shortest number).exponent).isSome = true := by
  have fits := fits_shortest range
  by_cases smaller : number.power ≤ 970 ∨ number.significand ≤ 2 ^ 53 - 3
  · exact Rounding.isSome_scaled fits.positive (fits.short.trans_lt (by norm_num))
      (fits.exponent_le range) (fits.value_lt range smaller)
  · have narrow : number.narrowBelow = false := by
      by_contra narrow
      have := range.narrow (Bool.not_eq_false _ ▸ narrow)
      omega
    have among : number.significand ∈ [2 ^ 53 - 2, 2 ^ 53 - 1] := by
      have := range.small
      simp only [List.mem_cons, List.not_mem_nil, or_false]
      omega
    have most := range.most
    have same : number = ⟨number.significand, 971, false⟩ := by
      obtain ⟨significand, power, narrowBelow⟩ := number
      simp only [Binary.mk.injEq, true_and]
      exact ⟨by dsimp only at smaller most; omega, narrow⟩
    rw [same]
    exact isSome_scaled_largest _ among

end Decimal

end RouteDesk
