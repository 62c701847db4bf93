import Mathlib

/-! Products and quotients of binary floating-point numbers stay finite within bounds on their
sizes. Sizes are read off the exponent field; only a product close to the largest number needs
its exact rounding.
-/

namespace RouteDesk.Rounding

open Float.Model Float.Model.UnpackedFloat

-----------------------------------------------------------------------------------------
-- The exponent field
-----------------------------------------------------------------------------------------

/-- The exponent field of a number; 2047 marks what is not finite. -/
def field (value : Float) : Nat :=
  (@unpackExponent .binary64 value.toModel.toBits.toBitVec).toNat

theorem isFinite_iff (value : Float)
    : value.isFinite = true ↔ field value ≠ 2047 := by
  have full : @unpackExponent .binary64 value.toModel.toBits.toBitVec = -1#_
      ↔ field value = 2047 := by
    rw [← BitVec.toNat_inj]
    rfl
  unfold Float.isFinite Float.Model.isFinite Float.Model.unpack UnpackedFloat.unpack
  dsimp only
  split
  · rename_i marked
    have := full.mp marked
    split <;> simp [UnpackedFloat.isFinite, this]
  · rename_i unmarked
    have := (not_congr full).mp unmarked
    split
    · split <;> simp [UnpackedFloat.isFinite, this]
    · simp [UnpackedFloat.isFinite, this]

/-- A finite number is a zero, or has a significand of at most 53 bits and the power of two
that its exponent field stands for.
-/
theorem unpack_of_finite {value : Float} (finite : field value ≠ 2047)
    : (∃ sign, value.toModel.unpack = .zero sign)
      ∨ ∃ sign significand power positive,
          value.toModel.unpack = .finite sign significand power positive
          ∧ significand < 2 ^ 53
          ∧ power = (max (field value) 1 : Nat) - 1075 := by
  have hexponent : (@unpackExponent .binary64
      value.toModel.toBits.toBitVec).toNat = field value := rfl
  have hmantissa := (@unpackMantissa .binary64 value.toModel.toBits.toBitVec).isLt
  unfold Float.Model.unpack UnpackedFloat.unpack
  dsimp only
  split
  case isTrue marked =>
    rw [← BitVec.toNat_inj, hexponent] at marked
    exact absurd marked finite
  case isFalse =>
    split
    case isTrue least =>
      rw [← BitVec.toNat_inj, hexponent] at least
      have hzero : field value = 0 := least
      split
      · exact Or.inl ⟨_, rfl⟩
      · rename_i nonzero
        have positive := Nat.pos_of_ne_zero fun same => nonzero (BitVec.eq_of_toNat_eq same)
        refine Or.inr ⟨_, _, _, positive, rfl, lt_trans hmantissa (by norm_num), ?_⟩
        rw [hexponent, hzero]
        rfl
    case isFalse normal =>
      have hpositive : field value ≠ 0 := by
        intro hzero
        apply normal
        rw [← BitVec.toNat_inj, hexponent, hzero]
        rfl
      have positive : 0 < (1#1 ++ @unpackMantissa .binary64
          value.toModel.toBits.toBitVec).toNat := by
        rw [BitVec.toNat_append]
        exact lt_of_lt_of_le (by decide : 0 < (1#1).toNat <<< 52) Nat.left_le_or
      refine Or.inr ⟨_, _, _, positive, rfl, ?_, ?_⟩
      · exact (1#1 ++ @unpackMantissa .binary64 value.toModel.toBits.toBitVec).isLt
      · rw [hexponent, Nat.max_eq_left (by omega)]
        rfl

/-- Packing keeps a power of two up to 971 in the exponent field. -/
theorem field_pack_of_le (sign : Sign) (significand : Nat) (power : Int)
    (positive : 0 < significand) (small : power ≤ 971)
    : field (.ofModel (.pack (.finite sign significand power positive)))
        ≤ (power + 1075).toNat
      ∧ field (.ofModel (.pack (.finite sign significand power positive))) ≠ 2047 := by
  have hbias : power + (Format.binary64.exponentBias : Int)
      + (Format.binary64.mantissaBitsWithoutImplicit : Int) = power + 1075 := by
    change power + 1023 + 52 = _
    omega
  have hroom : ¬ 2 ^ Format.binary64.exponentBits ≤ (power + 1075).toNat + 1 := by
    change ¬ 2 ^ 11 ≤ _
    omega
  unfold field Float.Model.pack UnpackedFloat.pack
  dsimp only
  rw [hbias, if_neg hroom]
  split
  · have hmod : (power + 1075).toNat % 2 ^ 11 = (power + 1075).toNat :=
      Nat.mod_eq_of_lt (by omega)
    simp only [unpackExponent_packComponents, BitVec.toNat_ofNat]
    rw [hmod]
    omega
  · simp [unpackExponent_packComponents]

/-- The exponent field of a number that is not a zero shows in its power of two. -/
theorem field_of_unpack {value : Float} {sign : Sign} {significand : Nat} {power : Int}
    {positive : 0 < significand}
    (unpacked : value.toModel.unpack = .finite sign significand power positive)
    : field value ≠ 2047 ∧ field value ≤ power + 1075 := by
  have finite : field value ≠ 2047 := by
    rw [← isFinite_iff]
    change value.toModel.unpack.isFinite = true
    rw [unpacked]
    rfl
  refine ⟨finite, ?_⟩
  rcases unpack_of_finite finite with ⟨_, zero⟩ | ⟨_, _, _, _, found, -, same⟩
  · rw [unpacked] at zero
    cases zero
  · rw [unpacked] at found
    cases found
    omega

theorem field_pack_zero (sign : Sign)
    : field (.ofModel (.pack (.zero sign))) = 0 := by
  cases sign <;> rfl

/-- Packing a power of two above 971 gives an infinite number. -/
theorem isInf_pack_of_gt (sign : Sign) (significand : Nat) (power : Int)
    (positive : 0 < significand) (large : 971 < power)
    : (Float.ofModel (.pack (.finite sign significand power positive))).isInf = true := by
  have hroom : 2 ^ Format.binary64.exponentBits
      ≤ (power + (Format.binary64.exponentBias : Int)
        + (Format.binary64.mantissaBitsWithoutImplicit : Int)).toNat + 1 := by
    change 2 ^ 11 ≤ (power + 1023 + 52).toNat + 1
    omega
  have hpack : UnpackedFloat.pack Format.binary64 (.finite sign significand power positive)
      = packedInfinity Format.binary64 sign := by
    unfold UnpackedFloat.pack
    dsimp only
    rw [if_pos hroom]
  unfold Float.isInf Float.Model.isInf Float.Model.unpack Float.Model.pack
  dsimp only
  rw [hpack]
  cases sign <;> rfl

-----------------------------------------------------------------------------------------
-- Rounding a significand to 53 bits
-----------------------------------------------------------------------------------------

/-- The power of two that a significand of 53 bits has, for a number of this size. -/
def targetPower (significand : Nat) (power : Int) : Int :=
  max (significand.log2 + power - 52) (-1074)

/-- How many bits of the significand rounding drops. -/
def dropped (significand : Nat) (power : Int) : Nat :=
  (targetPower significand power - power).toNat

theorem targetExponent_eq (significand : Nat) (power : Int)
    : Format.binary64.targetExponent (totalExponent significand power)
      = targetPower significand power := by
  simp only [Format.targetExponent, totalExponent, Format.mantissaBits, Format.minExponent,
    targetPower]
  norm_num
  omega

theorem shift_eq (significand : Nat) (power : Int) (accuracy : Accuracy)
    : shiftToTargetExponent Format.binary64 significand power accuracy
      = (ExtendedMantissa.ofMantissaAndAccuracy significand accuracy
            >>> dropped significand power,
          power + dropped significand power) := by
  rw [shiftToTargetExponent, targetExponent_eq]
  rfl

theorem mantissa_ofMantissaAndAccuracy (significand : Nat) (accuracy : Accuracy)
    : (ExtendedMantissa.ofMantissaAndAccuracy significand accuracy).mantissa = significand := by
  cases accuracy with
  | exact => rfl
  | inexact side => cases side <;> rfl

/-- Shifting drops low bits of the significand, by induction on their number. -/
theorem mantissa_shiftRight (extended : ExtendedMantissa) (count : Nat)
    : (extended >>> count).mantissa = extended.mantissa / 2 ^ count := by
  induction count with
  | zero => exact (Nat.div_one _).symm
  | succ count ih =>
      change (extended >>> count).mantissa / 2 = _
      rw [ih, Nat.div_div_eq_div_mul, Nat.pow_succ]

/-- The round bit is the last one that was dropped. -/
theorem roundBit_shiftRight (extended : ExtendedMantissa) (count : Nat)
    : (extended >>> (count + 1)).roundBit = (extended.mantissa / 2 ^ count % 2 != 0) := by
  change ((extended >>> count).mantissa % 2 != 0) = _
  rw [mantissa_shiftRight]

theorem roundedMantissa_le (extended : ExtendedMantissa)
    : extended.roundedMantissa ≤ extended.mantissa + extended.roundBit.toNat := by
  obtain ⟨mantissa, roundBit, stickyBit⟩ := extended
  cases roundBit <;> cases stickyBit <;>
    simp [ExtendedMantissa.roundedMantissa, ExtendedMantissa.accuracy,
      Accuracy.roundToNearestEven]
  omega

theorem mantissa_le_roundedMantissa (extended : ExtendedMantissa)
    : extended.mantissa ≤ extended.roundedMantissa := by
  obtain ⟨mantissa, roundBit, stickyBit⟩ := extended
  cases roundBit <;> cases stickyBit <;>
    simp [ExtendedMantissa.roundedMantissa, ExtendedMantissa.accuracy,
      Accuracy.roundToNearestEven]

/-- An exact significand is rounded by no more than half of what a unit of the result is
worth. Witness: the round bit is set only when at least half a unit was dropped.
-/
theorem rounded_exact_le (significand count : Nat)
    : 2 * ((ExtendedMantissa.ofMantissaAndAccuracy significand .exact
          >>> count).roundedMantissa * 2 ^ count)
      ≤ 2 * significand + 2 ^ count := by
  have bound := roundedMantissa_le
    (ExtendedMantissa.ofMantissaAndAccuracy significand .exact >>> count)
  rw [mantissa_shiftRight, mantissa_ofMantissaAndAccuracy] at bound
  cases count with
  | zero =>
      have hbit : (ExtendedMantissa.ofMantissaAndAccuracy significand .exact
          >>> 0).roundBit = false := rfl
      rw [hbit] at bound
      simp only [Nat.pow_zero, Nat.div_one, Bool.toNat_false] at bound ⊢
      omega
  | succ count =>
      have hkept := Nat.div_mul_le_self significand (2 ^ count)
      rw [roundBit_shiftRight, mantissa_ofMantissaAndAccuracy, Nat.pow_succ,
        ← Nat.div_div_eq_div_mul] at bound
      generalize significand / 2 ^ count = kept at bound hkept
      have hbit : (kept % 2 != 0).toNat ≤ kept % 2 := by
        rcases Nat.mod_two_eq_zero_or_one kept with even | odd
        · simp [even]
        · simp [odd]
      generalize (ExtendedMantissa.ofMantissaAndAccuracy significand .exact
        >>> (count + 1)).roundedMantissa = rounded at bound ⊢
      have htwice : 2 * rounded ≤ kept + 1 := by omega
      calc
        2 * (rounded * 2 ^ (count + 1)) = 2 * rounded * (2 ^ count * 2) := by
          rw [Nat.pow_succ, Nat.mul_assoc]
        _ ≤ (kept + 1) * (2 ^ count * 2) := Nat.mul_le_mul_right _ htwice
        _ = 2 * (kept * 2 ^ count) + 2 ^ (count + 1) := by
          rw [Nat.pow_succ]
          ring
        _ ≤ 2 * significand + 2 ^ (count + 1) := by omega

/-- What is left of the significand has at most 53 bits. -/
theorem kept_lt (significand : Nat) (power : Int)
    : significand / 2 ^ dropped significand power < 2 ^ 53 := by
  have hlog : significand.log2 ≤ 52 + dropped significand power := by
    unfold dropped targetPower
    omega
  rw [Nat.div_lt_iff_lt_mul (by positivity), ← Nat.pow_add]
  exact lt_of_lt_of_le Nat.lt_log2_self (Nat.pow_le_pow_right (by decide) (by omega))

/-- A number as it is rounded: a zero, or a significand at a power of two that is at most one
above the target. Rounding up may need the one.
-/
theorem roundWithAccuracy_eq (sign : Sign) (significand : Nat) (power : Int)
    (accuracy : Accuracy)
    : let rounded := (ExtendedMantissa.ofMantissaAndAccuracy significand accuracy
          >>> dropped significand power).roundedMantissa
      let reached := power + dropped significand power
      roundWithAccuracy Format.binary64 sign significand power accuracy
        = if positive : 0 < rounded / 2 ^ dropped rounded reached then
            .finite sign (rounded / 2 ^ dropped rounded reached)
              (reached + dropped rounded reached) positive
          else .zero sign := by
  intro rounded reached
  have final : (ExtendedMantissa.ofMantissaAndAccuracy rounded .exact
      >>> dropped rounded reached).mantissa = rounded / 2 ^ dropped rounded reached := by
    rw [mantissa_shiftRight, mantissa_ofMantissaAndAccuracy]
  unfold roundWithAccuracy
  rw [shift_eq]
  dsimp only
  rw [shift_eq]
  dsimp only
  by_cases positive : 0 < rounded / 2 ^ dropped rounded reached
  · rw [dif_pos positive, dif_neg (by rw [final]; omega)]
    congr 1
  · rw [dif_neg positive, dif_pos (by rw [final]; omega)]

/-- The significand is rounded to at most `2 ^ 53`, and one more bit is dropped for that. -/
theorem rounded_le (significand : Nat) (power : Int) (accuracy : Accuracy)
    : (ExtendedMantissa.ofMantissaAndAccuracy significand accuracy
          >>> dropped significand power).roundedMantissa
      ≤ 2 ^ 53 := by
  have bound := roundedMantissa_le (ExtendedMantissa.ofMantissaAndAccuracy significand accuracy
    >>> dropped significand power)
  rw [mantissa_shiftRight, mantissa_ofMantissaAndAccuracy] at bound
  have hkept := kept_lt significand power
  have hbit := Bool.toNat_le (ExtendedMantissa.ofMantissaAndAccuracy significand accuracy
    >>> dropped significand power).roundBit
  omega

theorem log2_le_of_lt {number bits : Nat} (small : number < 2 ^ (bits + 1))
    : number.log2 ≤ bits := by
  by_cases hzero : number = 0
  · simp [hzero]
  · exact Nat.lt_succ_iff.mp ((Nat.log2_lt hzero).mpr small)

/-- The power of two after rounding, if the result is not a zero. -/
theorem reached_le {rounded : Nat} {reached limit : Int} (least : -1074 ≤ reached)
    (hle : reached + 1 ≤ limit ∨ reached ≤ limit ∧ rounded < 2 ^ 53)
    (bounded : rounded ≤ 2 ^ 53)
    : reached + dropped rounded reached ≤ limit := by
  rcases hle with below | ⟨hat, small⟩
  · have hlog : rounded.log2 ≤ 53 := log2_le_of_lt (by omega)
    unfold dropped targetPower
    omega
  · have hlog : rounded.log2 ≤ 52 := log2_le_of_lt (by omega)
    unfold dropped targetPower
    omega

theorem le_reached (significand : Nat) (power : Int)
    : -1074 ≤ power + dropped significand power := by
  unfold dropped targetPower
  omega

/-- A rounded number stays below the size that one more than its target stands for. -/
theorem field_round_le (sign : Sign) (significand : Nat) (power : Int) (accuracy : Accuracy)
    (limit : Nat) (small : limit ≤ 2046)
    (hlimit : max power (targetPower significand power) + 1076 ≤ limit)
    : field (.ofModel (.pack
          (roundWithAccuracy Format.binary64 sign significand power accuracy)))
        ≤ limit
      ∧ field (.ofModel (.pack
          (roundWithAccuracy Format.binary64 sign significand power accuracy))) ≠ 2047 := by
  have hreached : power + dropped significand power
      = max power (targetPower significand power) := by
    unfold dropped
    omega
  have hle := @reached_le _ _ (limit - 1075) (le_reached significand power)
    (Or.inl (by omega)) (rounded_le significand power accuracy)
  have heq := roundWithAccuracy_eq sign significand power accuracy
  dsimp only at heq
  rw [heq]
  split
  · obtain ⟨hfield, hfinite⟩ := field_pack_of_le sign _ _ ‹_›
      (lt_of_le_of_lt hle (by omega : (limit : Int) - 1075 < 972) |> Int.le_of_lt_add_one)
    exact ⟨by omega, hfinite⟩
  · rw [field_pack_zero]
    omega

-----------------------------------------------------------------------------------------
-- Products
-----------------------------------------------------------------------------------------

/-- A number below `2 ^ 1024` has its highest bit below that. -/
theorem log2_add_le {significand : Nat} {power : Int} (nonzero : significand ≠ 0)
    (below : (significand : ℚ) * 2 ^ power < 2 ^ (1024 : Int))
    : significand.log2 + power ≤ 1023 := by
  have hlow : (2 : ℚ) ^ significand.log2 ≤ significand := by
    exact_mod_cast Nat.log2_self_le nonzero
  have hbelow : (2 : ℚ) ^ ((significand.log2 : Int) + power) < 2 ^ (1024 : Int) := by
    calc
      (2 : ℚ) ^ ((significand.log2 : Int) + power)
          = 2 ^ significand.log2 * 2 ^ power := by
        rw [zpow_add₀ (by norm_num), zpow_natCast]
      _ ≤ significand * 2 ^ power := mul_le_mul_of_nonneg_right hlow (by positivity)
      _ < 2 ^ (1024 : Int) := below
  have := (zpow_lt_zpow_iff_right₀ (by norm_num : (1 : ℚ) < 2)).mp hbelow
  omega

/-- A significand that is rounded to `2 ^ 53` with the highest power of two there is stands for
no less than the largest number and half a unit more.
-/
theorem le_of_rounded_top {significand count : Nat} {power : Int}
    (hround : 2 * (2 ^ 53 * 2 ^ count) ≤ 2 * significand + 2 ^ count)
    (htop : power + count = 971)
    : (2 ^ 54 - 1) * 2 ^ (970 : Int) ≤ (significand : ℚ) * 2 ^ power := by
  have hround' : (2 ^ 54 - 1) * (2 : ℚ) ^ count ≤ 2 * significand := by
    have cast : ((2 * (2 ^ 53 * 2 ^ count) : Nat) : ℚ) ≤ (2 * significand + 2 ^ count : Nat) := by
      exact_mod_cast hround
    push_cast at cast
    linarith
  have hscaled := mul_le_mul_of_nonneg_right hround' (by positivity : (0 : ℚ) ≤ 2 ^ power)
  have hunit : (2 : ℚ) ^ count * 2 ^ power = 2 ^ (971 : Int) := by
    rw [← zpow_natCast, ← zpow_add₀ (by norm_num), ← htop, add_comm]
  have hdouble : (2 : ℚ) ^ (971 : Int) = 2 * 2 ^ (970 : Int) :=
    zpow_add₀ (by norm_num) 1 970
  rw [mul_assoc, hunit, hdouble] at hscaled
  linarith

/-- A number below the largest one and half a unit more is rounded to a finite one. Witness: a
target above 970 together with rounding up to `2 ^ 53` would need the number to be larger.
-/
theorem field_round_exact_ne {significand : Nat} {power : Int} (sign : Sign)
    (large : 52 ≤ significand.log2)
    (below : (significand : ℚ) * 2 ^ power < (2 ^ 54 - 1) * 2 ^ (970 : Int))
    : field (.ofModel (.pack
          (roundWithAccuracy Format.binary64 sign significand power .exact))) ≠ 2047 := by
  have hpos : significand ≠ 0 := by
    intro hzero
    simp [hzero] at large
  have hsize : significand.log2 + power ≤ 1023 := by
    refine log2_add_le hpos (below.trans_le ?_)
    calc
      ((2 : ℚ) ^ 54 - 1) * 2 ^ (970 : Int) ≤ 2 ^ (54 : Int) * 2 ^ (970 : Int) :=
        mul_le_mul_of_nonneg_right (by norm_num) (by positivity)
      _ = 2 ^ (1024 : Int) := (zpow_add₀ (by norm_num) 54 970).symm
  have hreached : power + dropped significand power = targetPower significand power := by
    unfold dropped targetPower
    omega
  have hround := rounded_exact_le significand (dropped significand power)
  have hbound := rounded_le significand power .exact
  have heq := roundWithAccuracy_eq sign significand power .exact
  dsimp only at heq
  rw [heq]
  generalize (ExtendedMantissa.ofMantissaAndAccuracy significand .exact
    >>> dropped significand power).roundedMantissa = rounded at hround hbound ⊢
  split
  case isFalse =>
    rw [field_pack_zero]
    decide
  case isTrue positive =>
    refine (field_pack_of_le sign _ _ positive ?_).2
    apply reached_le (le_reached significand power) _ hbound
    by_cases low : power + dropped significand power ≤ 970
    · exact Or.inl (by omega)
    · refine Or.inr ⟨by unfold targetPower at hreached; omega, ?_⟩
      by_contra notBelow
      obtain rfl : rounded = 2 ^ 53 := by omega
      refine absurd (le_of_rounded_top hround ?_) (not_le.mpr below)
      unfold targetPower at hreached
      omega

/-- The product of two finite numbers is finite if their exact product lies below the largest
number and half a unit more.
-/
theorem field_mul_ne {left right : Float} {signL signR : Sign} {sigL sigR : Nat}
    {powL powR : Int} {posL : 0 < sigL} {posR : 0 < sigR}
    (hl : left.toModel.unpack = .finite signL sigL powL posL)
    (hr : right.toModel.unpack = .finite signR sigR powR posR)
    (large : 2 ^ 52 ≤ sigL)
    (below : (sigL * 2 ^ powL) * (sigR * 2 ^ powR) < (2 ^ 54 - 1) * (2 : ℚ) ^ (970 : Int))
    : field (left * right) ≠ 2047 := by
  change field (.ofModel (.pack (UnpackedFloat.mul _ left.toModel.unpack
    right.toModel.unpack))) ≠ 2047
  rw [hl, hr]
  refine field_round_exact_ne _ ?_ ?_
  · refine (Nat.le_log2 (by positivity)).mpr ?_
    calc
      2 ^ 52 ≤ sigL := large
      _ ≤ sigL * sigR := Nat.le_mul_of_pos_right _ posR
  · rw [zpow_add₀ (by norm_num), Nat.cast_mul]
    calc
      (sigL * sigR : ℚ) * (2 ^ powL * 2 ^ powR)
          = sigL * 2 ^ powL * (sigR * 2 ^ powR) := by ring
      _ < _ := below

/-- The product of finite numbers is finite or infinite, but never undefined. -/
theorem field_mul_ne_of_not_isInf {left right : Float} (hl : field left ≠ 2047)
    (hr : field right ≠ 2047) (bounded : (left * right).isInf = false)
    : field (left * right) ≠ 2047 := by
  have hmul : left * right = .ofModel (.pack (UnpackedFloat.mul Format.binary64
    left.toModel.unpack right.toModel.unpack)) := rfl
  rw [hmul] at bounded ⊢
  rcases unpack_of_finite hl with ⟨signL, zeroL⟩ | ⟨signL, sigL, powL, posL, finiteL, -⟩ <;>
    rcases unpack_of_finite hr with ⟨signR, zeroR⟩ | ⟨signR, sigR, powR, posR, finiteR, -⟩
  · rw [zeroL, zeroR, UnpackedFloat.mul, field_pack_zero]
    decide
  · rw [zeroL, finiteR, UnpackedFloat.mul, field_pack_zero]
    decide
  · rw [finiteL, zeroR, UnpackedFloat.mul, field_pack_zero]
    decide
  · rw [finiteL, finiteR, UnpackedFloat.mul, roundWithAccuracy_eq] at bounded ⊢
    split at bounded
    case isTrue positive =>
      rw [dif_pos positive]
      refine (field_pack_of_le _ _ _ _ ?_).2
      by_contra large
      rw [isInf_pack_of_gt _ _ _ _ (by omega)] at bounded
      contradiction
    case isFalse zero =>
      rw [dif_neg zero, field_pack_zero]
      decide

-----------------------------------------------------------------------------------------
-- Quotients
-----------------------------------------------------------------------------------------

theorem log2_shiftLeft_div_le {left right shift : Nat} (positive : 0 < right)
    (nonzero : (left <<< shift) / right ≠ 0)
    : ((left <<< shift) / right).log2 + right.log2 ≤ left.log2 + 1 + shift := by
  have hleft : left <<< shift < 2 ^ (left.log2 + 1 + shift) := by
    rw [Nat.shiftLeft_eq, Nat.pow_add]
    exact Nat.mul_lt_mul_of_pos_right Nat.lt_log2_self (Nat.two_pow_pos shift)
  have hright : 2 ^ right.log2 ≤ right := Nat.log2_self_le (by omega)
  have hquotient : 2 ^ ((left <<< shift) / right).log2 ≤ (left <<< shift) / right :=
    Nat.log2_self_le nonzero
  have hproduct : 2 ^ (((left <<< shift) / right).log2 + right.log2) ≤ left <<< shift := by
    rw [Nat.pow_add]
    exact (Nat.mul_le_mul hquotient hright).trans (Nat.div_mul_le_self _ _)
  exact ((Nat.pow_lt_pow_iff_right (by decide)).mp (lt_of_le_of_lt hproduct hleft)).le

/-- The size of a quotient is the difference of the sizes, up to two. -/
theorem field_div_le {left right : Float} {sign : Sign} {significand : Nat} {power : Int}
    {positive : 0 < significand} (hl : field left ≠ 2047)
    (hr : right.toModel.unpack = .finite sign significand power positive)
    {size limit : Nat} (hsize : (size : Int) ≤ significand.log2 + power)
    (hlimit : max (field left) 1 + 2 ≤ limit + size) (least : 2 ≤ limit)
    (small : limit ≤ 2046)
    : field (left / right) ≤ limit ∧ field (left / right) ≠ 2047 := by
  have hdiv : left / right = .ofModel (.pack (UnpackedFloat.div Format.binary64
    left.toModel.unpack right.toModel.unpack)) := rfl
  rw [hdiv, hr]
  rcases unpack_of_finite hl with ⟨signL, zeroL⟩ | ⟨signL, sigL, powL, posL, finiteL, hsig, hpow⟩
  · rw [zeroL, UnpackedFloat.div, field_pack_zero]
    omega
  · rw [finiteL, UnpackedFloat.div]
    refine field_round_le _ _ _ _ limit small ?_
    have hlog : sigL.log2 ≤ 52 := log2_le_of_lt hsig
    have htarget : Format.binary64.targetExponent
          (totalExponent sigL powL - totalExponent significand power)
        = max ((sigL.log2 + powL) - (significand.log2 + power) - 53) (-1074) := by
      simp only [Format.targetExponent, totalExponent, Format.mantissaBits, Format.minExponent]
      norm_num
      omega
    simp only [htarget]
    generalize hpower : min (powL - power)
      (max ((sigL.log2 + powL) - (significand.log2 + power) - 53) (-1074)) = reached
    by_cases hzero : (sigL <<< (powL - power - reached).toNat) / significand = 0
    · rw [hzero]
      unfold targetPower
      simp only [Nat.log2_zero]
      omega
    · have hquotient := log2_shiftLeft_div_le positive hzero
      unfold targetPower
      omega

-----------------------------------------------------------------------------------------
-- Whole numbers
-----------------------------------------------------------------------------------------

theorem unpackSign_packComponents {spec : Format} (sign : Sign)
    (exponent : BitVec spec.exponentBits) (mantissa : BitVec spec.mantissaBitsWithoutImplicit)
    : unpackSign (packComponents spec sign exponent mantissa) = sign.toBitVec := by
  ext index small
  obtain rfl : index = 0 := by omega
  simp [unpackSign, packComponents, BitVec.getLsbD_append, BitVec.getElem_append]

/-- Packing keeps a significand of 53 bits and its power of two. -/
theorem unpack_pack_normal (sign : Sign) {significand : Nat} {power : Int}
    (positive : 0 < significand) (low : 2 ^ 52 ≤ significand) (high : significand < 2 ^ 53)
    (least : -1074 ≤ power) (small : power ≤ 971)
    : (Float.Model.pack (.finite sign significand power positive)).unpack
      = .finite sign significand power positive := by
  have hlog : significand.log2 = 52 :=
    (Nat.log2_eq_iff (by omega)).mpr ⟨low, high⟩
  have hbias : power + (Format.binary64.exponentBias : Int)
      + (Format.binary64.mantissaBitsWithoutImplicit : Int) = power + 1075 := by
    change power + 1023 + 52 = _
    omega
  have hroom : ¬ 2 ^ Format.binary64.exponentBits ≤ (power + 1075).toNat + 1 := by
    change ¬ 2 ^ 11 ≤ _
    omega
  have hpack : UnpackedFloat.pack Format.binary64 (.finite sign significand power positive)
      = packComponents Format.binary64 sign (BitVec.ofNat _ (power + 1075).toNat)
          (BitVec.ofNat _ significand) := by
    unfold UnpackedFloat.pack
    dsimp only
    rw [hbias, if_neg hroom, if_pos (by rw [hlog]; rfl)]
  have hexponent : (BitVec.ofNat 11 (power + 1075).toNat).toNat = (power + 1075).toNat := by
    rw [BitVec.toNat_ofNat, Nat.mod_eq_of_lt (by omega)]
  have hmantissa : (1#1 ++ BitVec.ofNat 52 significand).toNat = significand := by
    rw [BitVec.toNat_append, ← Nat.shiftLeft_add_eq_or_of_lt (BitVec.isLt _),
      BitVec.toNat_ofNat]
    change 2 ^ 52 + significand % 2 ^ 52 = significand
    omega
  have hnotFull : BitVec.ofNat Format.binary64.exponentBits (power + 1075).toNat ≠ -1#_ := by
    intro same
    have := hexponent.symm.trans (congrArg BitVec.toNat same)
    change _ = 2047 at this
    omega
  have hnotZero : BitVec.ofNat Format.binary64.exponentBits (power + 1075).toNat ≠ 0#_ := by
    intro same
    have := hexponent.symm.trans (congrArg BitVec.toNat same)
    change _ = 0 at this
    omega
  have hpower : ((BitVec.ofNat 11 (power + 1075).toNat).toNat : Int)
      - ((1023 : Nat) + (52 : Nat)) = power := by
    rw [hexponent]
    omega
  unfold Float.Model.unpack Float.Model.pack
  dsimp only
  rw [hpack]
  unfold UnpackedFloat.unpack
  simp only [unpackExponent_packComponents, unpackMantissa_packComponents,
    unpackSign_packComponents, if_neg hnotFull, if_neg hnotZero]
  congr 1
  cases sign <;> rfl

/-- Half a unit more enlarges a number of at least `2 ^ 52` units by at most one part in
`2 ^ 53`.
-/
theorem rounded_value_le {significand rounded count : Nat} (power : Int)
    (hround : 2 * (rounded * 2 ^ count) ≤ 2 * significand + 2 ^ count)
    (hunit : 2 ^ 52 * 2 ^ count ≤ significand)
    : (rounded : ℚ) * 2 ^ (power + count) ≤ significand * 2 ^ power * (1 + 1 / 2 ^ 53) := by
  have hround' : (2 * (rounded * 2 ^ count) : ℚ) ≤ 2 * significand + 2 ^ count := by
    exact_mod_cast hround
  have hunit' : (2 ^ 52 * 2 ^ count : ℚ) ≤ significand := by
    exact_mod_cast hunit
  have hrounded : (rounded * 2 ^ count : ℚ) ≤ significand * (1 + 1 / 2 ^ 53) := by
    linarith
  have hscaled := mul_le_mul_of_nonneg_right hrounded
    (by positivity : (0 : ℚ) ≤ 2 ^ power)
  calc
    (rounded : ℚ) * 2 ^ (power + count) = rounded * 2 ^ count * 2 ^ power := by
      rw [zpow_add₀ (by norm_num), zpow_natCast]
      ring
    _ ≤ significand * (1 + 1 / 2 ^ 53) * 2 ^ power := hscaled
    _ = significand * 2 ^ power * (1 + 1 / 2 ^ 53) := by ring

/-- Rounding in the normal range yields 53 bits and enlarges a number by at most one part in
`2 ^ 53`.
-/
theorem round_exact_normal {significand : Nat} {power : Int} (sign : Sign)
    (large : 52 ≤ significand.log2) (normal : -1022 ≤ significand.log2 + power)
    : ∃ rounded reached positive,
        roundWithAccuracy Format.binary64 sign significand power .exact
          = .finite sign rounded reached positive
        ∧ 2 ^ 52 ≤ rounded ∧ rounded < 2 ^ 53
        ∧ (rounded : ℚ) * 2 ^ reached ≤ significand * 2 ^ power * (1 + 1 / 2 ^ 53)
        ∧ significand.log2 + power - 52 ≤ reached
        ∧ reached ≤ significand.log2 + power - 51 := by
  have hpos : significand ≠ 0 := by
    intro hzero
    simp [hzero] at large
  have htarget : (dropped significand power : Int) = significand.log2 - 52 := by
    unfold dropped targetPower
    omega
  have hround := rounded_exact_le significand (dropped significand power)
  have hbound := rounded_le significand power .exact
  have hkept := mantissa_le_roundedMantissa
    (ExtendedMantissa.ofMantissaAndAccuracy significand .exact >>> dropped significand power)
  rw [mantissa_shiftRight, mantissa_ofMantissaAndAccuracy] at hkept
  have heq := roundWithAccuracy_eq sign significand power .exact
  dsimp only at heq
  rw [heq]
  generalize (ExtendedMantissa.ofMantissaAndAccuracy significand .exact
    >>> dropped significand power).roundedMantissa = rounded at hround hbound hkept ⊢
  generalize hdropped : dropped significand power = count at *
  have hunit : 2 ^ 52 * 2 ^ count ≤ significand := by
    rw [← Nat.pow_add]
    exact (Nat.le_log2 hpos).mp (by omega)
  have hlow : 2 ^ 52 ≤ rounded :=
    ((Nat.le_div_iff_mul_le (by positivity)).mpr hunit).trans hkept
  have hvalue := rounded_value_le power hround hunit
  by_cases full : rounded < 2 ^ 53
  · have hlog : rounded.log2 = 52 := (Nat.log2_eq_iff (by omega)).mpr ⟨hlow, full⟩
    have hnone : dropped rounded (power + count) = 0 := by
      unfold dropped targetPower
      omega
    rw [hnone]
    refine ⟨rounded, power + count, by omega, ?_, hlow, full, hvalue, by omega, by omega⟩
    simp only [Nat.pow_zero, Nat.div_one, Nat.cast_zero, add_zero]
    rw [dif_pos (by omega)]
  · have htop : rounded = 2 ^ 53 := by omega
    subst htop
    have hone : dropped (2 ^ 53) (power + count) = 1 := by
      unfold dropped targetPower
      rw [Nat.log2_two_pow]
      omega
    rw [hone]
    refine ⟨2 ^ 52, power + count + 1, by decide, ?_, le_refl _, by decide, ?_, by omega,
      by omega⟩
    · rw [dif_pos (by decide)]
      rfl
    · calc
        ((2 ^ 52 : Nat) : ℚ) * 2 ^ (power + count + 1)
            = ((2 ^ 53 : Nat) : ℚ) * 2 ^ (power + count) := by
          rw [zpow_add₀ (by norm_num)]
          push_cast
          ring
        _ ≤ _ := hvalue

end RouteDesk.Rounding
