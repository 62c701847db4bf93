import RouteDesk.Json.Decimal
import RouteDesk.Proofs.Decimal.Rounding

/-! Numbers read from a significand and a power of ten are finite, and there is one whenever
the exact product, rounded up twice, stays below the largest number and half a unit more.
-/

namespace RouteDesk.Rounding

open Float.Model Float.Model.UnpackedFloat

-----------------------------------------------------------------------------------------
-- The factors
-----------------------------------------------------------------------------------------

theorem log2_shiftLeft {number : Nat} (positive : 0 < number) (shift : Nat)
    : (number <<< shift).log2 = number.log2 + shift := by
  have hlow := Nat.log2_self_le (n := number) (by omega)
  have hhigh := Nat.lt_log2_self (n := number)
  rw [Nat.shiftLeft_eq, Nat.log2_eq_iff (by positivity)]
  constructor
  · rw [Nat.pow_add]
    exact Nat.mul_le_mul_right _ hlow
  · rw [Nat.add_right_comm, Nat.pow_add]
    exact Nat.mul_lt_mul_of_pos_right hhigh (Nat.two_pow_pos shift)

/-- A positive whole number is converted with an error of at most one part in `2 ^ 53`. -/
theorem unpack_toFloat {number : Nat} (positive : 0 < number) (small : number < 2 ^ 64)
    : ∃ significand power nonzero,
        number.toUInt64.toFloat.toModel.unpack = .finite .positive significand power nonzero
        ∧ 2 ^ 52 ≤ significand ∧ significand < 2 ^ 53 ∧ power ≤ 12
        ∧ (significand : ℚ) * 2 ^ power ≤ number * (1 + 1 / 2 ^ 53) := by
  have hword : number.toUInt64.toNat = number := by
    simp only [Nat.toUInt64, UInt64.toNat_ofNat']
    exact Nat.mod_eq_of_lt small
  have hlog : number.log2 ≤ 63 := log2_le_of_lt small
  have htarget : targetPower number 0 = number.log2 - 52 := by
    unfold targetPower
    omega
  have hmodel : number.toUInt64.toFloat.toModel
      = .pack (roundWithAccuracy Format.binary64 .positive
          (number <<< (0 - targetPower number 0).toNat)
          (0 - (0 - targetPower number 0).toNat) .exact) := by
    change Float.Model.pack (UnpackedFloat.normalize Format.binary64
      (number.toUInt64.toNat : Int) 0 .positive) = _
    rw [hword, UnpackedFloat.normalize, Int.compare_eq_gt.mpr (by omega)]
    dsimp only
    rw [Int.toNat_natCast, UnpackedFloat.round, targetExponent_eq]
    rfl
  generalize hshift : (0 - targetPower number 0).toNat = shift at hmodel
  have hshifted := log2_shiftLeft positive shift
  obtain ⟨significand, power, nonzero, hround, hlow, hhigh, hvalue, hleast, hmost⟩ :=
    @round_exact_normal (number <<< shift) (0 - shift) .positive
      (by omega) (by omega)
  refine ⟨significand, power, nonzero, ?_, hlow, hhigh, by omega, ?_⟩
  · rw [hmodel, hround]
    exact unpack_pack_normal _ nonzero hlow hhigh (by omega) (by omega)
  · calc
      (significand : ℚ) * 2 ^ power
          ≤ (number <<< shift : Nat) * 2 ^ ((0 : Int) - shift) * (1 + 1 / 2 ^ 53) := hvalue
      _ = number * (1 + 1 / 2 ^ 53) := by
        rw [Nat.shiftLeft_eq, zero_sub, zpow_neg, zpow_natCast]
        push_cast
        rw [mul_assoc (number : ℚ), mul_inv_cancel₀ (by positivity), mul_one]

/-- The size of a converted number shows in its exponent field. -/
theorem field_toFloat {number : Nat} (small : number < 2 ^ 64)
    : field number.toUInt64.toFloat ≤ 1087 := by
  by_cases hzero : number = 0
  · subst hzero
    decide
  · obtain ⟨_, _, _, unpacked, -, -, hpower, -⟩ :=
      unpack_toFloat (Nat.pos_of_ne_zero hzero) small
    have := (field_of_unpack unpacked).2
    omega

theorem isFinite_toFloat {number : Nat} (small : number < 2 ^ 64)
    : number.toUInt64.toFloat.isFinite = true := by
  have := field_toFloat small
  exact (isFinite_iff _).mpr (by omega)

/-- What factors are known by: a power of ten is at least one, with an error of at most one part
in `2 ^ 53`.
-/
def IsNearTenTo (exponent : Nat) (value : UnpackedFloat) : Prop :=
  ∃ significand power nonzero,
    value = .finite .positive significand power nonzero
    ∧ 2 ^ 52 ≤ significand ∧ -52 ≤ power
    ∧ (significand : ℚ) * 2 ^ power ≤ 10 ^ exponent * (1 + 1 / 2 ^ 53)

/-- The same in whole numbers. -/
def checksTenTo (exponent : Nat) : UnpackedFloat → Bool
  | .finite .positive significand power _ =>
    decide (2 ^ 52 ≤ significand ∧ -52 ≤ power
      ∧ significand * 2 ^ (power + 52).toNat * 2 ^ 53 ≤ 10 ^ exponent * 2 ^ 52 * (2 ^ 53 + 1))
  | _ => false

theorem isNearTenTo_of_checks {exponent : Nat} {value : UnpackedFloat}
    (checked : checksTenTo exponent value = true)
    : IsNearTenTo exponent value := by
  unfold checksTenTo at checked
  split at checked
  case h_1 significand power positive =>
    obtain ⟨hlow, hleast, hvalue⟩ := of_decide_eq_true checked
    refine ⟨significand, power, positive, rfl, hlow, hleast, ?_⟩
    have hcast : (significand * 2 ^ (power + 52).toNat * 2 ^ 53 : ℚ)
        ≤ 10 ^ exponent * 2 ^ 52 * (2 ^ 53 + 1) := by
      exact_mod_cast hvalue
    have hpower : (2 : ℚ) ^ (power + 52).toNat = 2 ^ power * 2 ^ 52 := by
      rw [← zpow_natCast, Int.toNat_of_nonneg (by omega), zpow_add₀ (by norm_num)]
      norm_num
    rw [hpower] at hcast
    linarith
  case h_2 => contradiction

/-- The powers of ten that are looked up, and the largest one. -/
theorem checksTenTo_table
    : ∀ exponent ∈ 308 :: List.range 23,
        checksTenTo exponent (Float.ofScientific 1 false exponent).toModel.unpack = true := by
  decide +kernel

theorem tenTo_le_tenTo {first second : Nat} (ordered : first ≤ second)
    : tenTo first ≤ tenTo second :=
  Nat.pow_le_pow_right (by decide) ordered

theorem log2_le_of_lt_twoTo {number bits : Nat} (small : number < twoTo (bits + 1))
    : number.log2 ≤ bits :=
  log2_le_of_lt small

/-- Every power of ten in range is close to what it stands for. Those in the table are
checked, and the others are rounded once.
-/
theorem isNearTenTo_ofScientific {exponent : Nat} (small : exponent ≤ 308)
    : IsNearTenTo exponent (Float.ofScientific 1 false exponent).toModel.unpack := by
  by_cases listed : exponent ∈ 308 :: List.range 23
  · exact isNearTenTo_of_checks (checksTenTo_table exponent listed)
  · simp only [List.mem_cons, List.mem_range, not_or] at listed
    have hlow : 2 ^ 69 ≤ 10 ^ exponent :=
      calc
        2 ^ 69 ≤ 10 ^ 23 := by norm_num
        _ ≤ 10 ^ exponent := Nat.pow_le_pow_right (by decide) (by omega)
    have largest : 2 ^ 53 * tenTo 307 < twoTo 1075 := by decide +kernel
    have hlogLow : 122 ≤ (2 ^ 53 * 10 ^ exponent).log2 := by
      refine (Nat.le_log2 (by positivity)).mpr ?_
      calc
        2 ^ 122 = 2 ^ 53 * 2 ^ 69 := by norm_num
        _ ≤ 2 ^ 53 * 10 ^ exponent := Nat.mul_le_mul_left _ hlow
    have hlogHigh : (2 ^ 53 * 10 ^ exponent).log2 ≤ 1074 := by
      refine log2_le_of_lt_twoTo (lt_of_le_of_lt (Nat.mul_le_mul_left _ ?_) largest)
      exact tenTo_le_tenTo (by omega)
    have hmodel : (Float.ofScientific 1 false exponent).toModel
        = .pack (roundWithAccuracy Format.binary64 .positive
            (2 ^ 53 * 10 ^ exponent) (-53) .exact) := by
      rw [Float.ofScientific, dif_neg (by omega)]
      change Float.Model.pack (UnpackedFloat.ofScientific Format.binary64 1 (exponent : Int)) = _
      rw [UnpackedFloat.ofScientific, dif_neg (by decide), if_neg (by norm_num; omega),
        if_neg (by norm_num; omega), if_pos (by omega)]
      rfl
    obtain ⟨significand, power, nonzero, hround, hsigLow, hsigHigh, hvalue, hleast, hmost⟩ :=
      @round_exact_normal (2 ^ 53 * 10 ^ exponent) (-53) .positive
        (by omega) (by omega)
    refine ⟨significand, power, nonzero, ?_, hsigLow, by omega, ?_⟩
    · rw [hmodel, hround]
      exact unpack_pack_normal _ nonzero hsigLow hsigHigh (by omega) (by omega)
    · refine hvalue.trans_eq ?_
      have hcancel : (2 : ℚ) ^ 53 * 2 ^ (-53 : Int) = 1 := by
        rw [zpow_neg]
        norm_num
      rw [Nat.cast_mul, Nat.cast_pow, Nat.cast_pow, mul_right_comm ((2 : Nat) ^ 53 : ℚ)]
      push_cast
      rw [hcancel, one_mul]

-----------------------------------------------------------------------------------------
-- Scaled numbers
-----------------------------------------------------------------------------------------

theorem isInf_eq_false {value : Float} (finite : field value ≠ 2047)
    : value.isInf = false := by
  change value.toModel.unpack.isInf = false
  rcases unpack_of_finite finite with ⟨sign, zero⟩ | ⟨sign, significand, power, positive, found, -⟩
  · rw [zero]
    rfl
  · rw [found]
    rfl

theorem isFinite_neg {value : Float} (finite : value.isFinite = true)
    : (-value).isFinite = true := by
  rw [isFinite_iff] at finite ⊢
  change field (.ofModel (.pack value.toModel.unpack.neg)) ≠ 2047
  have hword : field value < 2 ^ 11 :=
    (@unpackExponent .binary64 value.toModel.toBits.toBitVec).isLt
  rcases unpack_of_finite finite
    with ⟨sign, zero⟩ | ⟨sign, significand, power, positive, found, -, hpower⟩
  · rw [zero, UnpackedFloat.neg, field_pack_zero]
    decide
  · rw [found, UnpackedFloat.neg]
    exact (field_pack_of_le _ _ _ _ (by omega)).2

/-- A factor is finite and at least one. -/
theorem unpack_factor {exponent : Nat} (small : exponent ≤ 308)
    : ∃ significand power positive,
        (Float.ofScientific 1 false exponent).toModel.unpack
          = .finite .positive significand power positive
        ∧ ((0 : Nat) : Int) ≤ significand.log2 + power
        ∧ (significand : ℚ) * 2 ^ power ≤ 10 ^ exponent * (1 + 1 / 2 ^ 53) := by
  obtain ⟨significand, power, positive, found, hlow, hleast, hvalue⟩ :=
    isNearTenTo_ofScientific small
  have hlog : 52 ≤ significand.log2 := (Nat.le_log2 (by omega)).mpr hlow
  exact ⟨significand, power, positive, found, by omega, hvalue⟩

/-- The size of a number, as the least whole number of bits below it. -/
def spans (size : Nat) : UnpackedFloat → Bool
  | .finite _ significand power _ => decide ((size : Int) ≤ significand.log2 + power)
  | _ => false

theorem finite_of_spans {size : Nat} {value : UnpackedFloat} (spanned : spans size value = true)
    : ∃ sign significand power positive,
        value = .finite sign significand power positive
        ∧ (size : Int) ≤ significand.log2 + power := by
  unfold spans at spanned
  split at spanned
  case h_1 sign significand power positive =>
    exact ⟨sign, significand, power, positive, rfl, of_decide_eq_true spanned⟩
  case h_2 => contradiction

/-- The largest factor takes more bits away than a division can add. -/
theorem spans_largest : spans 2 (1e308 : Float).toModel.unpack = true := by
  decide +kernel

/-- Division by the largest factor makes no number larger. -/
theorem field_div_largest_le {value : Float} (bounded : field value ≤ 1087)
    : field (value / 1e308) ≤ 1087 := by
  obtain ⟨sign, significand, power, positive, found, hsize⟩ := finite_of_spans spans_largest
  exact (field_div_le (by omega) found hsize (by omega) (by decide) (by decide)).1

/-- One division by a factor ends in a finite number. -/
theorem field_div_factor_ne {value : Float} (bounded : field value ≤ 1087) {exponent : Nat}
    (small : exponent ≤ 308)
    : field (value / Float.ofScientific 1 false exponent) ≠ 2047 := by
  obtain ⟨significand, power, positive, found, hsize, -⟩ := unpack_factor small
  exact (@field_div_le _ _ _ _ _ _ (by omega) found 0 1089 hsize (by omega) (by decide)
    (by decide)).2

/-- What is scaled step by step is finite, by induction on the steps; what carries it is that
every step leaves a number that is small enough for the next.
-/
theorem field_go_ne {limit : Nat} {value scaled : Float} {exponent : Int}
    (bounded : field value ≤ 1087)
    (reached : Decimal.scaled.go limit value exponent = some scaled)
    : field scaled ≠ 2047 := by
  induction limit generalizing value exponent with
  | zero =>
      rw [Decimal.scaled.go] at reached
      obtain rfl := Option.some.inj reached
      omega
  | succ limit ih =>
      rw [Decimal.scaled.go] at reached
      split at reached
      case isTrue small =>
        dsimp only at reached
        split at reached
        case isTrue =>
          split at reached
          case isTrue => contradiction
          case isFalse notInf =>
            obtain rfl := Option.some.inj reached
            obtain ⟨significand, power, positive, found, -, -⟩ := unpack_factor small
            exact field_mul_ne_of_not_isInf (by omega) (field_of_unpack found).1
              (Bool.eq_false_iff.mpr notInf)
        case isFalse =>
          obtain rfl := Option.some.inj reached
          exact field_div_factor_ne bounded small
      case isFalse =>
        split at reached
        case isTrue =>
          obtain rfl := Option.some.inj reached
          omega
        case isFalse =>
          split at reached
          case isTrue => contradiction
          case isFalse => exact ih (field_div_largest_le bounded) reached

/-- A scaled number is finite. Witness: `field_go_ne` from the converted significand on. -/
theorem isFinite_scaled {significand : Nat} {exponent : Int} {scaled : Float}
    (small : significand < 2 ^ 64)
    (found : Decimal.scaled significand exponent = some scaled)
    : scaled.isFinite = true :=
  (isFinite_iff scaled).mpr (field_go_ne (field_toFloat small) found)

/-- Scaling down always succeeds. -/
theorem isSome_go_of_neg {limit : Nat} {value : Float} {exponent : Int} (below : exponent < 0)
    (enough : exponent.natAbs ≤ limit * 308)
    : (Decimal.scaled.go limit value exponent).isSome = true := by
  induction limit generalizing value exponent with
  | zero => omega
  | succ limit ih =>
      rw [Decimal.scaled.go]
      split
      case isTrue => simp [show ¬ 0 ≤ exponent by omega]
      case isFalse large =>
        split
        case isTrue => rfl
        case isFalse =>
          rw [if_neg (by omega)]
          exact ih (by omega) (by omega)

/-- Scaling a positive significand succeeds as long as the product stays in range however its
two factors are rounded.
-/
theorem isSome_scaled {significand : Nat} {exponent : Int} (positive : 0 < significand)
    (small : significand < 2 ^ 64) (factor : exponent ≤ 308)
    (range : (significand : ℚ) * 10 ^ exponent * (1 + 1 / 2 ^ 53) ^ 2
      < (2 ^ 54 - 1) * 2 ^ (970 : Int))
    : (Decimal.scaled significand exponent).isSome = true := by
  unfold Decimal.scaled
  by_cases below : exponent < 0
  · exact isSome_go_of_neg below (by omega)
  · obtain ⟨power, rfl⟩ := Int.eq_ofNat_of_zero_le (Int.not_lt.mp below)
    obtain ⟨sigL, powL, posL, foundL, hlow, -, -, hvalueL⟩ := unpack_toFloat positive small
    obtain ⟨sigR, powR, posR, foundR, -, hvalueR⟩ :=
      @unpack_factor power (by omega)
    have hproduct : (sigL * 2 ^ powL) * (sigR * 2 ^ powR)
        < (2 ^ 54 - 1) * (2 : ℚ) ^ (970 : Int) := by
      refine lt_of_le_of_lt ?_ range
      calc
        (sigL * 2 ^ powL) * (sigR * 2 ^ powR : ℚ)
            ≤ (significand * (1 + 1 / 2 ^ 53)) * (10 ^ power * (1 + 1 / 2 ^ 53)) := by gcongr
        _ = significand * 10 ^ (power : Int) * (1 + 1 / 2 ^ 53) ^ 2 := by
          rw [zpow_natCast]
          ring
    have hfinite := field_mul_ne foundL foundR hlow hproduct
    rw [Decimal.scaled.go, if_pos (by omega)]
    simp only [Int.natAbs_natCast, Int.natCast_nonneg, if_true, isInf_eq_false hfinite]
    rfl

end RouteDesk.Rounding
