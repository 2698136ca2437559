import ScriptEngine.Proofs.Decimal.Unpacked

/-!
# Whole numbers in doubles

A whole number of a magnitude below 2 to the power of 53 is a double exactly, and but for the sign
of zero in one way only (`Binary64.IsWhole`). Below this bound sums and differences of whole
numbers are exact, and comparing the doubles compares the numbers.
-/

set_option autoImplicit false

namespace ScriptEngine.Binary64

open Float.Model Float.Model.UnpackedFloat

/-- The parts of a whole number below 2 to the power of 53: the mantissa is the magnitude,
shifted until it has 53 bits. -/
inductive Whole : UnpackedFloat → Int → Prop where
  | zero (sign : Sign) : Whole (.zero sign) 0
  | finite {sign : Sign} {magnitude shift : Nat} (nonzero : 0 < magnitude)
      (leading : magnitude.log2 + shift = 52) (positive : 0 < magnitude * 2 ^ shift) :
      Whole (.finite sign (magnitude * 2 ^ shift) (-shift) positive) (sign.apply magnitude)

/-- The double is a whole number of a magnitude below 2 to the power of 53. -/
def IsWhole (number : Float) (whole : Int) : Prop :=
  Whole number.toModel.unpack whole

/-!
## Logarithms
-/

theorem log2_mul_two_pow {magnitude : Nat} (nonzero : 0 < magnitude) (shift : Nat) :
    (magnitude * 2 ^ shift).log2 = magnitude.log2 + shift := by
  have low := Nat.log2_self_le (Nat.ne_of_gt nonzero)
  have high := Nat.lt_log2_self (n := magnitude)
  have power : 0 < 2 ^ shift := Nat.two_pow_pos shift
  rw [Nat.log2_eq_iff (Nat.ne_of_gt (Nat.mul_pos nonzero power)), Nat.pow_add,
    Nat.add_right_comm, Nat.pow_add _ (magnitude.log2 + 1)]
  exact ⟨Nat.mul_le_mul_right _ low, Nat.mul_lt_mul_of_pos_right high power⟩

theorem log2_le_of_lt {magnitude : Nat} (nonzero : 0 < magnitude) (small : magnitude < 2 ^ 53) :
    magnitude.log2 ≤ 52 :=
  Nat.le_of_lt_succ ((Nat.log2_lt (Nat.ne_of_gt nonzero)).mpr small)

theorem lt_of_log2_lt {left right : Nat} (nonzero : 0 < right)
    (shorter : left.log2 < right.log2) : left < right :=
  calc left
      < 2 ^ (left.log2 + 1) := Nat.lt_log2_self
    _ ≤ 2 ^ right.log2 := Nat.pow_le_pow_right (by decide) shorter
    _ ≤ right := Nat.log2_self_le (Nat.ne_of_gt nonzero)

/-!
## Signs
-/

theorem apply_neg (sign : Sign) (magnitude : Int) :
    (-sign).apply magnitude = -sign.apply magnitude := by
  cases sign
  · exact (Int.neg_neg magnitude).symm
  · rfl

theorem apply_mul (sign : Sign) (magnitude power : Nat) :
    sign.apply (magnitude * power : Nat) = sign.apply magnitude * power := by
  cases sign <;> simp [Sign.apply]

/-!
## Shifting the mantissa
-/

theorem targetExponent_eq (mantissa : Nat) (exponent : Int) :
    Format.binary64.targetExponent (totalExponent mantissa exponent) =
      max (mantissa.log2 + exponent - 52) (-1074) := by
  have width : Format.binary64.mantissaBits = 53 := rfl
  have least : Format.binary64.minExponent = -1074 := rfl
  simp only [Format.targetExponent, totalExponent, width, least]
  omega

/-- Zeros that are shifted out leave nothing to be rounded. -/
theorem shiftRight_two_pow (mantissa shift : Nat) :
    (⟨mantissa * 2 ^ shift, false, false⟩ : ExtendedMantissa) >>> shift =
      ⟨mantissa, false, false⟩ := by
  induction shift generalizing mantissa with
  | zero => simp [HShiftRight.hShiftRight, Nat.repeat]
  | succ shift ih =>
      have before := ih (mantissa * 2)
      rw [Nat.mul_assoc, ← Nat.pow_succ'] at before
      simp only [HShiftRight.hShiftRight, Nat.repeat] at before ⊢
      rw [before]
      simp [ExtendedMantissa.shiftRightOne]

/-!
## Rounding whole numbers
-/

section

variable {magnitude shift : Nat} (nonzero : 0 < magnitude)
  (leading : magnitude.log2 + shift = 52)

include nonzero leading

theorem shiftToTarget_whole (more : Nat) :
    shiftToTargetExponent .binary64 (magnitude * 2 ^ (shift + more)) (-(shift + more : Nat))
        .exact =
      (⟨magnitude * 2 ^ shift, false, false⟩, (-shift : Int)) := by
  have target : Format.binary64.targetExponent
      (totalExponent (magnitude * 2 ^ (shift + more)) (-(shift + more : Nat))) = -shift := by
    rw [targetExponent_eq, log2_mul_two_pow nonzero]
    omega
  have steps : (-(shift : Int) - -((shift + more : Nat) : Int)).toNat = more := by omega
  simp only [shiftToTargetExponent, target, shiftToExponent, steps,
    ExtendedMantissa.ofMantissaAndAccuracy]
  rw [Nat.pow_add, ← Nat.mul_assoc, shiftRight_two_pow]
  congr 1
  omega

variable (positive : 0 < magnitude * 2 ^ shift)

theorem roundWithAccuracy_whole (sign : Sign) (more : Nat) :
    roundWithAccuracy .binary64 sign (magnitude * 2 ^ (shift + more)) (-(shift + more : Nat))
        .exact =
      .finite sign (magnitude * 2 ^ shift) (-shift) positive := by
  have again := shiftToTarget_whole nonzero leading 0
  rw [Nat.add_zero] at again
  simp only [roundWithAccuracy, shiftToTarget_whole nonzero leading more,
    ExtendedMantissa.roundedMantissa, ExtendedMantissa.accuracy, Accuracy.roundToNearestEven,
    again]
  rw [dif_neg (Nat.ne_of_gt positive)]

theorem round_whole (sign : Sign) (scale : Nat) :
    UnpackedFloat.round .binary64 sign (magnitude * 2 ^ scale) (-scale) =
      .finite sign (magnitude * 2 ^ shift) (-shift) positive := by
  have target : Format.binary64.targetExponent (totalExponent (magnitude * 2 ^ scale) (-scale)) =
      -shift := by
    rw [targetExponent_eq, log2_mul_two_pow nonzero]
    omega
  simp only [UnpackedFloat.round, target, decreaseExponent]
  rcases Nat.le_total shift scale with enough | few
  · obtain ⟨more, rfl⟩ := Nat.exists_eq_add_of_le enough
    have steps : (-((shift + more : Nat) : Int) - -shift).toNat = 0 := by omega
    rw [steps, Nat.shiftLeft_zero, Int.natCast_zero, Int.sub_zero]
    exact roundWithAccuracy_whole nonzero leading positive sign more
  · obtain ⟨more, rfl⟩ := Nat.exists_eq_add_of_le few
    have steps : (-(scale : Int) - -((scale + more : Nat) : Int)).toNat = more := by omega
    have exact := roundWithAccuracy_whole nonzero leading positive sign 0
    rw [Nat.add_zero] at exact
    rw [steps, Nat.shiftLeft_eq, Nat.mul_assoc, ← Nat.pow_add, ← exact]
    congr 1
    omega

end

namespace Whole

theorem of_round (sign : Sign) {magnitude : Nat} (nonzero : 0 < magnitude)
    (small : magnitude < 2 ^ 53) (scale : Nat) :
    Whole (UnpackedFloat.round .binary64 sign (magnitude * 2 ^ scale) (-scale))
      (sign.apply magnitude) := by
  obtain ⟨shift, leading⟩ := Nat.exists_eq_add_of_le (log2_le_of_lt nonzero small)
  have positive : 0 < magnitude * 2 ^ shift := Nat.mul_pos nonzero (Nat.two_pow_pos shift)
  rw [round_whole nonzero leading.symm positive sign scale]
  exact .finite nonzero leading.symm positive

/-- A whole number below the bound is not changed by rounding. -/
theorem of_normalize {whole : Int} (small : whole.natAbs < 2 ^ 53) (scale : Nat) (sign : Sign) :
    Whole (UnpackedFloat.normalize .binary64 (whole * 2 ^ scale) (-scale) sign) whole := by
  have power : (0 : Int) < 2 ^ scale := Int.pow_pos (by decide)
  have magnitude {value : Int} (nonnegative : 0 ≤ value) :
      (value * 2 ^ scale).toNat = value.toNat * 2 ^ scale := by
    rw [Int.toNat_mul nonnegative (Int.le_of_lt power)]
    rfl
  unfold UnpackedFloat.normalize
  rcases Int.lt_trichotomy whole 0 with negative | zero | positive
  · have below : whole * 2 ^ scale < 0 := Int.mul_neg_of_neg_of_pos negative power
    have value : whole = Sign.negative.apply (-whole).toNat := by
      simp only [Sign.apply]
      omega
    have rounded := of_round .negative (by omega : 0 < (-whole).toNat) (by omega) scale
    rw [Int.compare_eq_lt.mpr below]
    dsimp only
    rw [← Int.neg_mul, magnitude (by omega)]
    rwa [← value] at rounded
  · subst zero
    rw [Int.zero_mul]
    exact .zero sign
  · have above : 0 < whole * 2 ^ scale := Int.mul_pos positive power
    have value : whole = Sign.positive.apply whole.toNat := by
      simp only [Sign.apply]
      omega
    have rounded := of_round .positive (by omega : 0 < whole.toNat) (by omega) scale
    rw [Int.compare_eq_gt.mpr above]
    dsimp only
    rw [magnitude (by omega)]
    rwa [← value] at rounded

/-!
## Arithmetic below the bound
-/

section

variable {number left right : UnpackedFloat} {whole first second : Int}

theorem canonical (stands : Whole number whole) : Canonical number := by
  cases stands with
  | zero sign => exact .zero sign
  | @finite sign magnitude shift nonzero leading positive =>
      have low := Nat.log2_self_le (Nat.ne_of_gt positive)
      have high := Nat.lt_log2_self (n := magnitude * 2 ^ shift)
      rw [log2_mul_two_pow nonzero, leading] at low high
      exact .finite positive high (by omega) (by omega) (.inl low)

theorem natAbs_lt (stands : Whole number whole) : whole.natAbs < 2 ^ 53 := by
  cases stands with
  | zero => decide
  | @finite sign magnitude shift nonzero leading positive =>
      have high := Nat.lt_log2_self (n := magnitude)
      have bound : 2 ^ (magnitude.log2 + 1) ≤ 2 ^ 53 :=
        Nat.pow_le_pow_right (by decide) (by omega)
      cases sign <;> simp only [Sign.apply] <;> omega

theorem decreaseExponent_eq (magnitude shift more : Nat) :
    (decreaseExponent (magnitude * 2 ^ shift) (-shift) (-(shift + more : Nat))).1 =
      magnitude * 2 ^ (shift + more) := by
  have steps : (-(shift : Int) - -((shift + more : Nat) : Int)).toNat = more := by omega
  simp only [decreaseExponent, steps]
  rw [Nat.shiftLeft_eq, Nat.mul_assoc, ← Nat.pow_add]

theorem add (leftWhole : Whole left first) (rightWhole : Whole right second)
    (small : (first + second).natAbs < 2 ^ 53) :
    Whole (UnpackedFloat.add .binary64 left right) (first + second) := by
  cases leftWhole with
  | zero sign =>
      cases rightWhole with
      | zero other =>
          simp only [UnpackedFloat.add]
          split
          · exact .zero _
          · exact .zero _
      | finite nonzero leading positive =>
          rw [Int.zero_add]
          exact .finite nonzero leading positive
  | @finite sign magnitude shift nonzero leading positive =>
      cases rightWhole with
      | zero other =>
          rw [Int.add_zero]
          exact .finite nonzero leading positive
      | @finite other otherMagnitude otherShift otherNonzero otherLeading otherPositive =>
          -- Both mantissas are brought to the smaller one of the exponents.
          obtain ⟨scale, same⟩ : ∃ scale, max shift otherShift = scale := ⟨_, rfl⟩
          obtain ⟨more, scaled⟩ := Nat.exists_eq_add_of_le (same ▸ Nat.le_max_left shift otherShift)
          obtain ⟨otherMore, otherScaled⟩ :=
            Nat.exists_eq_add_of_le (same ▸ Nat.le_max_right shift otherShift)
          have smaller : min (-shift : Int) (-otherShift) = -scale := by omega
          have leftScaled := decreaseExponent_eq magnitude shift more
          have rightScaled := decreaseExponent_eq otherMagnitude otherShift otherMore
          rw [← scaled] at leftScaled
          rw [← otherScaled] at rightScaled
          have exact := of_normalize small scale .positive
          simp only [UnpackedFloat.add, smaller, leftScaled, rightScaled]
          rw [apply_mul, apply_mul, ← Int.add_mul, Int.natCast_pow]
          exact exact

theorem neg (stands : Whole number whole) : Whole number.neg (-whole) := by
  cases stands with
  | zero sign => exact .zero _
  | @finite sign magnitude shift nonzero leading positive =>
      rw [← apply_neg]
      exact .finite nonzero leading positive

theorem sub_eq_add_neg (left right : UnpackedFloat) :
    UnpackedFloat.sub .binary64 left right = UnpackedFloat.add .binary64 left right.neg := by
  cases left <;> cases right <;>
    simp [UnpackedFloat.sub, UnpackedFloat.add, UnpackedFloat.neg, apply_neg, Int.sub_eq_add_neg]

theorem sub (leftWhole : Whole left first) (rightWhole : Whole right second)
    (small : (first - second).natAbs < 2 ^ 53) :
    Whole (UnpackedFloat.sub .binary64 left right) (first - second) := by
  rw [sub_eq_add_neg, Int.sub_eq_add_neg]
  exact leftWhole.add rightWhole.neg (by rwa [← Int.sub_eq_add_neg])

theorem mul_one (stands : Whole number whole) (positive : 0 < 2 ^ 52) :
    Whole (UnpackedFloat.mul .binary64 number (.finite .positive (2 ^ 52) (-52) positive))
      whole := by
  have same (sign : Sign) : sign * .positive = sign := by cases sign <;> rfl
  cases stands with
  | zero sign => exact .zero _
  | @finite sign magnitude shift nonzero leading bound =>
      have rounded := roundWithAccuracy_whole nonzero leading bound sign 52
      have exponent : -(shift : Int) + -52 = -((shift + 52 : Nat) : Int) := by omega
      simp only [UnpackedFloat.mul, same, Nat.mul_assoc, ← Nat.pow_add, exponent, rounded]
      exact .finite nonzero leading bound

/-- Truncating a whole number gives the number. -/
theorem toUInt64 {whole : Nat} (stands : Whole number whole) :
    number.toUInt64.toNat = whole := by
  have small := stands.natAbs_lt
  have clamped {value : Int} (same : value = whole) :
      (UInt64.ofNatClamp value.toNat).toNat = whole := by
    rw [same, Int.toNat_natCast, UInt64.ofNatClamp, dif_pos (by simp only [UInt64.size]; omega)]
    rfl
  refine clamped ?_
  generalize same : (whole : Int) = value at stands
  cases stands with
  | zero sign => rfl
  | @finite sign magnitude shift nonzero leading positive =>
      have none : (-shift : Int).toNat = 0 := by omega
      have steps : (0 - (-shift : Int)).toNat = shift := by omega
      simp only [UnpackedFloat.toInt, roundToInt, decreaseExponent, Int.sub_zero, none,
        Nat.shiftLeft_zero, Int.natCast_zero, shiftToExponent, steps,
        ExtendedMantissa.ofMantissaAndAccuracy, shiftRight_two_pow]

end

/-!
## Comparisons below the bound
-/

theorem compare_mul_two_pow (left right shift : Nat) :
    compare (left * 2 ^ shift) (right * 2 ^ shift) = compare left right := by
  have power := Nat.two_pow_pos shift
  rcases Nat.lt_trichotomy left right with less | same | more
  · rw [Nat.compare_eq_lt.mpr less,
      Nat.compare_eq_lt.mpr (Nat.mul_lt_mul_of_pos_right less power)]
  · rw [same, Nat.compare_eq_eq.mpr rfl, Nat.compare_eq_eq.mpr rfl]
  · rw [Nat.compare_eq_gt.mpr more,
      Nat.compare_eq_gt.mpr (Nat.mul_lt_mul_of_pos_right more power)]

theorem compare_natCast (left right : Nat) : compare (left : Int) right = compare left right := by
  rcases Nat.lt_trichotomy left right with less | same | more
  · rw [Nat.compare_eq_lt.mpr less, Int.compare_eq_lt.mpr (by omega)]
  · rw [same, Nat.compare_eq_eq.mpr rfl, Int.compare_eq_eq.mpr rfl]
  · rw [Nat.compare_eq_gt.mpr more, Int.compare_eq_gt.mpr (by omega)]

theorem compare_neg (left right : Int) : compare (-left) (-right) = (compare left right).swap := by
  rcases Int.lt_trichotomy left right with less | same | more
  · rw [Int.compare_eq_lt.mpr less, Int.compare_eq_gt.mpr (by omega)]
    rfl
  · rw [same, Int.compare_eq_eq.mpr rfl, Int.compare_eq_eq.mpr rfl]
    rfl
  · rw [Int.compare_eq_gt.mpr more, Int.compare_eq_lt.mpr (by omega)]
    rfl

/-- The exponents are compared first: the number with the shorter shift is longer. -/
theorem compare_parts {left right leftShift rightShift : Nat} (leftNonzero : 0 < left)
    (rightNonzero : 0 < right) (leftLeading : left.log2 + leftShift = 52)
    (rightLeading : right.log2 + rightShift = 52) :
    (compare (-leftShift : Int) (-rightShift)).then
      (compare (left * 2 ^ leftShift) (right * 2 ^ rightShift)) = compare left right := by
  rcases Nat.lt_trichotomy leftShift rightShift with less | same | more
  · have above : right < left := lt_of_log2_lt leftNonzero (by omega)
    rw [Int.compare_eq_gt.mpr (by omega), Nat.compare_eq_gt.mpr above]
    rfl
  · subst same
    rw [Int.compare_eq_eq.mpr rfl, compare_mul_two_pow]
    rfl
  · have below : left < right := lt_of_log2_lt rightNonzero (by omega)
    rw [Int.compare_eq_lt.mpr (by omega), Nat.compare_eq_lt.mpr below]
    rfl

theorem compare_zero {sign other : Sign} {magnitude : Nat} (nonzero : 0 < magnitude)
    {mantissa : Nat} {exponent : Int} {positive : 0 < mantissa} :
    UnpackedFloat.compare (.zero other) (.finite sign mantissa exponent positive) =
        some (compare 0 (sign.apply magnitude)) ∧
      UnpackedFloat.compare (.finite sign mantissa exponent positive) (.zero other) =
        some (compare (sign.apply magnitude) 0) := by
  cases sign with
  | negative =>
      simp only [UnpackedFloat.compare, Sign.apply]
      rw [Int.compare_eq_gt.mpr (by omega), Int.compare_eq_lt.mpr (by omega)]
      exact ⟨rfl, rfl⟩
  | positive =>
      simp only [UnpackedFloat.compare, Sign.apply]
      rw [Int.compare_eq_lt.mpr (by omega), Int.compare_eq_gt.mpr (by omega)]
      exact ⟨rfl, rfl⟩

theorem compare_eq {left right : UnpackedFloat} {first second : Int}
    (leftWhole : Whole left first) (rightWhole : Whole right second) :
    left.compare right = some (compare first second) := by
  cases leftWhole with
  | zero sign =>
      cases rightWhole with
      | zero => rfl
      | finite nonzero => exact (compare_zero nonzero).1
  | @finite sign magnitude shift nonzero leading positive =>
      cases rightWhole with
      | zero other => exact (compare_zero nonzero).2
      | @finite other otherMagnitude otherShift otherNonzero otherLeading otherPositive =>
          have parts := compare_parts nonzero otherNonzero leading otherLeading
          cases sign <;> cases other <;> simp only [UnpackedFloat.compare, Sign.apply, parts]
          · rw [compare_neg, compare_natCast]
          · rw [Int.compare_eq_lt.mpr (by omega)]
          · rw [Int.compare_eq_gt.mpr (by omega)]
          · rw [compare_natCast]

theorem packed {number : UnpackedFloat} {whole : Int} (stands : Whole number whole) :
    IsWhole ⟨.pack number⟩ whole := by
  rw [IsWhole, unpack_pack stands.canonical]
  exact stands

end Whole

/-!
## Doubles below the bound
-/

theorem isWhole_toFloat {word : UInt64} (small : word.toNat < 2 ^ 53) :
    IsWhole word.toFloat word.toNat := by
  have below : (word.toNat : Int).natAbs < 2 ^ 53 := small
  have rounded := Whole.of_normalize below 0 .positive
  rw [Int.pow_zero, Int.mul_one] at rounded
  exact rounded.packed

theorem isWhole_ofNat {whole : Nat} (small : whole < 2 ^ 53) :
    IsWhole (Float.ofNat whole) whole := by
  have one : (getElem Float.exactlyRepresentablePowersOfTen 0 (by decide)).toModel.unpack =
      .finite .positive (2 ^ 52) (-52) (by decide) := rfl
  have word : whole.toUInt64.toNat = whole := by
    simp only [Nat.toUInt64, UInt64.toNat_ofNat']
    omega
  have converted : IsWhole whole.toUInt64.toFloat whole := by
    have exact := isWhole_toFloat (show whole.toUInt64.toNat < 2 ^ 53 by omega)
    rwa [word] at exact
  have product : Float.ofNat whole =
      whole.toUInt64.toFloat * getElem Float.exactlyRepresentablePowersOfTen 0 (by decide) := by
    show Float.ofScientific whole false 0 = _
    rw [Float.ofScientific, dif_pos ⟨small, by decide⟩]
    rfl
  have exact := (converted.mul_one (by decide)).packed
  rw [← one] at exact
  rw [product]
  exact exact

namespace IsWhole

variable {number left right : Float} {whole first second : Int}

theorem neg (stands : IsWhole number whole) : IsWhole (-number) (-whole) :=
  (Whole.neg stands).packed

theorem add (leftWhole : IsWhole left first) (rightWhole : IsWhole right second)
    (small : (first + second).natAbs < 2 ^ 53) : IsWhole (left + right) (first + second) :=
  (Whole.add leftWhole rightWhole small).packed

theorem sub (leftWhole : IsWhole left first) (rightWhole : IsWhole right second)
    (small : (first - second).natAbs < 2 ^ 53) : IsWhole (left - right) (first - second) :=
  (Whole.sub leftWhole rightWhole small).packed

end IsWhole

theorem isWhole_ofInt {whole : Int} (small : whole.natAbs < 2 ^ 53) :
    IsWhole (Float.ofInt whole) whole := by
  cases whole with
  | ofNat whole => exact isWhole_ofNat small
  | negSucc less => exact (isWhole_ofNat (show less + 1 < 2 ^ 53 by omega)).neg

end ScriptEngine.Binary64
