import ScriptEngine.Proofs.Decimal.Whole

/-!
# Doubles that are integers

Which doubles are integers is read off the mantissa and the power of two (`Binary64.integer?`).
They are the whole numbers below 2 to the power of 53, and from there on the doubles with a
positive exponent (`Binary64.isWhole_or_isLarge`). A sum with a large negative number may be
rounded, even to an infinity. Yet it is less than zero if the other number is below the bound
(`Binary64.IsLarge.add_lt_zero`).
-/

set_option autoImplicit false

namespace ScriptEngine.Binary64

open Float.Model Float.Model.UnpackedFloat

/-- The double is a whole number from 2 to the power of 53 on. -/
structure IsLarge (number : Float) (sign : Sign) (mantissa : Nat) (exponent : Int) : Prop where
  positive : 0 < mantissa
  unpacked : number.toModel.unpack = .finite sign mantissa exponent positive
  leading : 2 ^ 52 ≤ mantissa
  below : mantissa < 2 ^ 53
  scaled : 0 < exponent

/-!
## Reading integers
-/

theorem signed_isNegative (sign : Sign) (magnitude : Nat) :
    (if isNegative sign = true then -(magnitude : Int) else magnitude) = sign.apply magnitude := by
  cases sign <;> rfl

theorem integer?_finite {number : Float} {sign : Sign} {mantissa : Nat} {exponent : Int}
    {positive : 0 < mantissa}
    (unpacked : number.toModel.unpack = .finite sign mantissa exponent positive) :
    integer? number =
      if 0 ≤ exponent then some (sign.apply (mantissa * 2 ^ exponent.toNat : Nat))
      else if mantissa % 2 ^ (-exponent).toNat = 0 then
        some (sign.apply (mantissa / 2 ^ (-exponent).toNat : Nat))
      else none := by
  simp only [integer?, ofFloat_eq, unpacked, ofUnpacked, Nat.shiftLeft_eq,
    Nat.one_mul, signed_isNegative]

/-- A fraction is an integer if the power of two divides the mantissa. -/
theorem integer?_shifted {number : Float} {sign : Sign} {mantissa shift : Nat}
    {positive : 0 < mantissa}
    (unpacked : number.toModel.unpack = .finite sign mantissa (-shift) positive) :
    integer? number =
      if mantissa % 2 ^ shift = 0 then some (sign.apply (mantissa / 2 ^ shift : Nat)) else none := by
  have negated : (- -(shift : Int)).toNat = shift := by omega
  rw [integer?_finite unpacked, negated]
  split
  · next none =>
      have zero : shift = 0 := by omega
      subst zero
      simp [Nat.mod_one]
  · rfl

theorem IsWhole.integer? {number : Float} {whole : Int} (stands : IsWhole number whole) :
    Binary64.integer? number = some whole := by
  unfold IsWhole at stands
  generalize unpacked : number.toModel.unpack = parts at stands
  cases stands with
  | zero sign =>
      simp [Binary64.integer?, ofFloat_eq, unpacked, ofUnpacked, leastExponent]
  | @finite sign magnitude shift nonzero leading positive =>
      rw [integer?_shifted unpacked, Nat.mul_mod_left, if_pos rfl,
        Nat.mul_div_cancel _ (Nat.two_pow_pos shift)]

/-- The quotient is not too small to have its leading bit where a mantissa has it. -/
theorem whole_of_divides {sign : Sign} {mantissa shift : Nat} (positive : 0 < mantissa)
    (below : mantissa < 2 ^ 53) (leading : 2 ^ 52 ≤ mantissa ∨ shift = 1074)
    (divides : mantissa % 2 ^ shift = 0) :
    Whole (.finite sign mantissa (-shift) positive)
      (sign.apply (mantissa / 2 ^ shift : Nat)) := by
  have product : mantissa / 2 ^ shift * 2 ^ shift = mantissa :=
    Nat.div_mul_cancel (Nat.dvd_of_mod_eq_zero divides)
  have nonzero : 0 < mantissa / 2 ^ shift := by
    refine Nat.pos_of_ne_zero fun zero => ?_
    rw [zero] at product
    omega
  have normal : 2 ^ 52 ≤ mantissa := by
    refine leading.resolve_right fun last => ?_
    have long : 2 ^ 53 ≤ 2 ^ shift := Nat.pow_le_pow_right (by decide) (by omega)
    have least : 2 ^ shift ≤ mantissa :=
      Nat.le_of_dvd positive (Nat.dvd_of_mod_eq_zero divides)
    omega
  have width : (mantissa / 2 ^ shift).log2 + shift = 52 := by
    rw [← log2_mul_two_pow nonzero, product, log2_eq_of_leading normal below]
  have stands : Whole (.finite sign (mantissa / 2 ^ shift * 2 ^ shift) (-shift)
      (by rw [product]; exact positive)) (sign.apply (mantissa / 2 ^ shift : Nat)) :=
    .finite nonzero width _
  simpa only [product] using stands

theorem isWhole_or_isLarge {number : Float} {whole : Int}
    (found : integer? number = some whole) :
    IsWhole number whole ∨ ∃ sign mantissa exponent, IsLarge number sign mantissa exponent ∧
      whole = sign.apply (mantissa * 2 ^ exponent.toNat : Nat) := by
  have canonical : Canonical number.toModel.unpack := canonical_unpack _
  generalize unpacked : number.toModel.unpack = parts at canonical
  cases canonical with
  | notANumber | infinity sign =>
      simp [integer?, ofFloat_eq, unpacked, ofUnpacked] at found
  | zero sign =>
      have stands : IsWhole number 0 := by
        rw [IsWhole, unpacked]
        exact .zero sign
      rw [stands.integer?] at found
      cases found
      exact .inl stands
  | @finite sign mantissa exponent positive below least most leading =>
      rcases Int.lt_or_le 0 exponent with scaled | fine
      · rw [integer?_finite unpacked, if_pos (Int.le_of_lt scaled)] at found
        cases found
        exact .inr ⟨sign, mantissa, exponent, ⟨positive, unpacked, by omega, below, scaled⟩, rfl⟩
      · obtain ⟨shift, rfl⟩ := Int.exists_eq_neg_ofNat fine
        rw [integer?_shifted unpacked] at found
        split at found
        · next divides =>
            cases found
            refine .inl ?_
            rw [IsWhole, unpacked]
            exact whole_of_divides positive below (by omega) divides
        · cases found

/-!
## Comparing doubles
-/

theorem float_lt_iff (left right : Float) :
    left < right ↔ left.toModel.unpack.compare right.toModel.unpack = some .lt := by
  show decide _ = true ↔ _
  rw [decide_eq_true_iff]
  exact beq_iff_eq (a := left.toModel.unpack.compare right.toModel.unpack) (b := some .lt)

theorem float_le_iff (left right : Float) :
    left ≤ right ↔ (left.toModel.unpack.compare right.toModel.unpack).any Ordering.isLE = true := by
  show decide _ = true ↔ _
  rw [decide_eq_true_iff]
  rfl

namespace IsWhole

variable {left right : Float} {first second : Int}

theorem lt_iff (leftWhole : IsWhole left first) (rightWhole : IsWhole right second) :
    left < right ↔ first < second := by
  rw [float_lt_iff, Whole.compare_eq leftWhole rightWhole, Option.some.injEq, Int.compare_eq_lt]

theorem le_iff (leftWhole : IsWhole left first) (rightWhole : IsWhole right second) :
    left ≤ right ↔ first ≤ second := by
  rw [float_le_iff, Whole.compare_eq leftWhole rightWhole, Option.any_some, Int.isLE_compare]

end IsWhole

/-!
## Rounding
-/

theorem mantissa_shiftRight (extended : ExtendedMantissa) (steps : Nat) :
    (extended >>> steps).mantissa = extended.mantissa / 2 ^ steps := by
  induction steps with
  | zero => simp [HShiftRight.hShiftRight, Nat.repeat]
  | succ steps ih =>
      simp only [HShiftRight.hShiftRight, Nat.repeat, ExtendedMantissa.shiftRightOne] at ih ⊢
      rw [ih, Nat.div_div_eq_div_mul, ← Nat.pow_succ]

/-- A mantissa of at most 53 bits is not shifted any more. -/
theorem shiftToTarget_of_lt {mantissa : Nat} {exponent : Int} (nonzero : 0 < mantissa)
    (below : mantissa < 2 ^ 53) (least : -1074 ≤ exponent) :
    shiftToTargetExponent .binary64 mantissa exponent .exact =
      (⟨mantissa, false, false⟩, exponent) := by
  have short := log2_le_of_lt nonzero below
  have none : (max (mantissa.log2 + exponent - 52) (-1074) - exponent).toNat = 0 := by omega
  have kept := shiftRight_two_pow mantissa 0
  rw [Nat.pow_zero, Nat.mul_one] at kept
  simp only [shiftToTargetExponent, targetExponent_eq, shiftToExponent, none,
    ExtendedMantissa.ofMantissaAndAccuracy, kept, Int.natCast_zero, Int.add_zero]

theorem shiftToTarget_two_pow {exponent : Int} (least : -1074 ≤ exponent) :
    shiftToTargetExponent .binary64 (2 ^ 53) exponent .exact =
      (⟨2 ^ 52, false, false⟩, exponent + 1) := by
  have once : (max ((2 ^ 53 : Nat).log2 + exponent - 52) (-1074) - exponent).toNat = 1 := by
    rw [Nat.log2_two_pow]
    omega
  have halved := shiftRight_two_pow (2 ^ 52) 1
  rw [← Nat.pow_add] at halved
  simp only [shiftToTargetExponent, targetExponent_eq, shiftToExponent, once,
    ExtendedMantissa.ofMantissaAndAccuracy, halved, Int.natCast_one]

theorem roundedMantissa_bounds (extended : ExtendedMantissa) :
    extended.mantissa ≤ extended.roundedMantissa ∧
      extended.roundedMantissa ≤ extended.mantissa + 1 := by
  obtain ⟨mantissa, roundBit, stickyBit⟩ := extended
  cases roundBit <;> cases stickyBit <;>
    simp only [ExtendedMantissa.roundedMantissa, ExtendedMantissa.accuracy,
      Accuracy.roundToNearestEven] <;>
    omega

/-- What rounding gives, before a large exponent makes it infinite. -/
inductive Rounded (sign : Sign) : UnpackedFloat → Prop where
  | intro {mantissa : Nat} {exponent : Int} (positive : 0 < mantissa) (below : mantissa < 2 ^ 53)
      (least : -1074 ≤ exponent) (leading : 2 ^ 52 ≤ mantissa ∨ exponent = -1074) :
      Rounded sign (.finite sign mantissa exponent positive)

/-- Once the mantissa is shifted to 53 bits, rounding adds one at most. If that makes another
bit, it is shifted once more. -/
theorem Rounded.of_shifted {sign : Sign} {mantissa : Nat} {exponent target : Int}
    {extended : ExtendedMantissa}
    (first : shiftToTargetExponent .binary64 mantissa exponent .exact = (extended, target))
    (nonzero : 0 < extended.mantissa) (short : extended.mantissa < 2 ^ 53)
    (least : -1074 ≤ target) (leading : 2 ^ 52 ≤ extended.mantissa ∨ target = -1074) :
    Rounded sign (roundWithAccuracy .binary64 sign mantissa exponent .exact) := by
  obtain ⟨atLeast, atMost⟩ := roundedMantissa_bounds extended
  obtain ⟨result, rounds⟩ : ∃ result, extended.roundedMantissa = result := ⟨_, rfl⟩
  rw [rounds] at atLeast atMost
  rcases Nat.lt_or_ge result (2 ^ 53) with below | carried
  · simp only [roundWithAccuracy, first, rounds,
      shiftToTarget_of_lt (by omega : 0 < result) below least]
    rw [dif_neg (by omega)]
    exact .intro (by omega) below least (by omega)
  · have full : result = 2 ^ 53 := by omega
    subst full
    simp only [roundWithAccuracy, first, rounds, shiftToTarget_two_pow least]
    rw [dif_neg (by decide)]
    exact .intro (by decide) (by decide) (by omega) (.inl (Nat.le_refl _))

theorem rounded_roundWithAccuracy {sign : Sign} {mantissa : Nat} {exponent : Int}
    (nonzero : 0 < mantissa) (least : -1074 ≤ exponent)
    (coarse : exponent ≤ max (mantissa.log2 + exponent - 52) (-1074)) :
    Rounded sign (roundWithAccuracy .binary64 sign mantissa exponent .exact) := by
  obtain ⟨target, same⟩ : ∃ target, target = max (mantissa.log2 + exponent - 52) (-1074) :=
    ⟨_, rfl⟩
  obtain ⟨steps, shifted⟩ := Int.le.dest (same ▸ coarse)
  have first : shiftToTargetExponent .binary64 mantissa exponent .exact =
      ((⟨mantissa, false, false⟩ : ExtendedMantissa) >>> steps, target) := by
    have amount : (target - exponent).toNat = steps := by omega
    simp only [shiftToTargetExponent, targetExponent_eq, ← same, shiftToExponent, amount,
      ExtendedMantissa.ofMantissaAndAccuracy, shifted]
  have low := Nat.log2_self_le (Nat.ne_of_gt nonzero)
  have high := Nat.lt_log2_self (n := mantissa)
  have short : mantissa / 2 ^ steps < 2 ^ 53 := by
    rw [Nat.div_lt_iff_lt_mul (Nat.two_pow_pos steps), ← Nat.pow_add]
    exact Nat.lt_of_lt_of_le high (Nat.pow_le_pow_right (by decide) (by omega))
  by_cases last : target = -1074
  · -- The exponent was the least one already, and nothing is shifted out.
    have none : steps = 0 := by omega
    subst none
    rw [Nat.pow_zero, Nat.div_one] at short
    refine .of_shifted first ?_ ?_ (by omega) (.inr last) <;>
      rwa [mantissa_shiftRight, Nat.pow_zero, Nat.div_one]
  · have leading : 2 ^ 52 ≤ mantissa / 2 ^ steps := by
      rw [Nat.le_div_iff_mul_le (Nat.two_pow_pos steps), ← Nat.pow_add]
      exact Nat.le_trans (Nat.pow_le_pow_right (by decide) (by omega)) low
    rw [← mantissa_shiftRight ⟨mantissa, false, false⟩] at short leading
    exact .of_shifted first (by omega) short (by omega) (.inl leading)

theorem rounded_round {sign : Sign} {mantissa : Nat} {exponent : Int}
    (nonzero : 0 < mantissa) (least : -1074 ≤ exponent) :
    Rounded sign (UnpackedFloat.round .binary64 sign mantissa exponent) := by
  simp only [UnpackedFloat.round, targetExponent_eq, decreaseExponent]
  obtain ⟨steps, amount⟩ : ∃ steps,
      (exponent - max (mantissa.log2 + exponent - 52) (-1074)).toNat = steps := ⟨_, rfl⟩
  have scaled := log2_mul_two_pow nonzero steps
  rw [amount, Nat.shiftLeft_eq]
  refine rounded_roundWithAccuracy (Nat.mul_pos nonzero (Nat.two_pow_pos steps)) ?_ ?_
  · omega
  · rw [scaled]
    omega

/-- The number has this sign and is not zero. -/
inductive HasSign (sign : Sign) : UnpackedFloat → Prop where
  | finite {mantissa : Nat} {exponent : Int} (positive : 0 < mantissa) :
      HasSign sign (.finite sign mantissa exponent positive)
  | infinity : HasSign sign (.infinity sign)

/-- An exponent that is too large gives an infinity. -/
theorem pack_of_large {sign : Sign} {mantissa : Nat} {exponent : Int} (positive : 0 < mantissa)
    (large : 971 < exponent) :
    UnpackedFloat.pack .binary64 (.finite sign mantissa exponent positive) =
      UnpackedFloat.pack .binary64 (.infinity sign) := by
  simp only [UnpackedFloat.pack, biased_eq]
  rw [if_pos (by omega)]

theorem Rounded.packed {sign : Sign} {number : UnpackedFloat} (rounded : Rounded sign number) :
    HasSign sign (Float.Model.pack number).unpack := by
  cases rounded with
  | @intro mantissa exponent positive below least leading =>
      rcases Int.lt_or_le 971 exponent with large | fits
      · have infinite : (Float.Model.pack (.finite sign mantissa exponent positive)).unpack =
            (Float.Model.pack (.infinity sign)).unpack :=
          congrArg (UnpackedFloat.unpack .binary64) (pack_of_large positive large)
        rw [infinite, unpack_pack (.infinity sign)]
        exact .infinity
      · rw [unpack_pack (.finite positive below least fits leading)]
        exact .finite positive

/-!
## Large numbers
-/

theorem HasSign.compare_eq {number other : UnpackedFloat} {whole : Int}
    (negative : HasSign .negative number) (stands : Whole other whole)
    (nonnegative : 0 ≤ whole) : number.compare other = some .lt := by
  cases stands with
  | zero sign => cases negative <;> rfl
  | @finite sign magnitude shift nonzero leading positive =>
      cases sign with
      | negative =>
          simp only [Sign.apply] at nonnegative
          omega
      | positive => cases negative <;> rfl

theorem normalize_of_neg {whole exponent : Int} (negative : whole < 0) (least : -1074 ≤ exponent)
    (sign : Sign) : Rounded .negative (UnpackedFloat.normalize .binary64 whole exponent sign) := by
  unfold UnpackedFloat.normalize
  rw [Int.compare_eq_lt.mpr negative]
  exact rounded_round (by omega) least

namespace IsLarge

variable {number other : Float} {mantissa : Nat} {exponent whole : Int}

theorem compare_eq (large : IsLarge number .positive mantissa exponent)
    (stands : IsWhole other whole) :
    number.toModel.unpack.compare other.toModel.unpack = some .gt ∧
      other.toModel.unpack.compare number.toModel.unpack = some .lt := by
  have scaled := large.scaled
  rw [large.unpacked]
  unfold IsWhole at stands
  generalize other.toModel.unpack = parts at stands
  cases stands with
  | zero => exact ⟨rfl, rfl⟩
  | @finite sign magnitude shift nonzero leading positive =>
      cases sign with
      | negative => exact ⟨rfl, rfl⟩
      | positive =>
          simp only [UnpackedFloat.compare]
          rw [Int.compare_eq_gt.mpr (by omega), Int.compare_eq_lt.mpr (by omega)]
          exact ⟨rfl, rfl⟩

theorem not_lt (large : IsLarge number .positive mantissa exponent)
    (stands : IsWhole other whole) : ¬number < other := by
  rw [float_lt_iff, (large.compare_eq stands).1]
  decide

theorem le (large : IsLarge number .positive mantissa exponent)
    (stands : IsWhole other whole) : other ≤ number := by
  rw [float_le_iff, (large.compare_eq stands).2]
  rfl

theorem rounded {sign : Sign} (large : IsLarge number sign mantissa exponent) :
    Rounded sign number.toModel.unpack := by
  have scaled := large.scaled
  rw [large.unpacked]
  exact .intro large.positive large.below (by omega) (.inl large.leading)

theorem lt (large : IsLarge number .negative mantissa exponent) (stands : IsWhole other whole)
    (nonnegative : 0 ≤ whole) : number < other := by
  have signed : HasSign .negative number.toModel.unpack := by
    rw [large.unpacked]
    exact .finite large.positive
  rw [float_lt_iff]
  exact signed.compare_eq stands nonnegative

theorem two_pow_le {sign : Sign} (large : IsLarge number sign mantissa exponent) :
    2 ^ 53 ≤ mantissa * 2 ^ exponent.toNat := by
  have scaled := large.scaled
  have power : 2 ^ 1 ≤ 2 ^ exponent.toNat := Nat.pow_le_pow_right (by decide) (by omega)
  exact Nat.mul_le_mul large.leading power

/-- However the sum is rounded, its sign is the one of the large number. -/
theorem rounded_add (large : IsLarge number .negative mantissa exponent)
    (stands : IsWhole other whole) (nonnegative : 0 ≤ whole) :
    Rounded .negative
      (UnpackedFloat.add .binary64 other.toModel.unpack number.toModel.unpack) := by
  have scaled := large.scaled
  have bound := stands.natAbs_lt
  unfold IsWhole at stands
  generalize other.toModel.unpack = parts at stands
  cases stands with
  | zero sign =>
      have kept := large.rounded
      rw [large.unpacked] at kept ⊢
      exact kept
  | @finite sign magnitude shift nonzero leading positive =>
      cases sign with
      | negative =>
          simp only [Sign.apply] at nonnegative
          omega
      | positive =>
          have smaller : min (-shift : Int) exponent = -shift := by omega
          have none : (-(shift : Int) - -shift).toNat = 0 := by omega
          have steps : (exponent - -(shift : Int)).toNat = exponent.toNat + shift := by omega
          have less : magnitude * 2 ^ shift < mantissa * 2 ^ (exponent.toNat + shift) := by
            rw [Nat.pow_add, ← Nat.mul_assoc]
            refine Nat.mul_lt_mul_of_pos_right ?_ (Nat.two_pow_pos shift)
            exact Nat.lt_of_lt_of_le bound large.two_pow_le
          rw [large.unpacked]
          simp only [UnpackedFloat.add, smaller, decreaseExponent, none, steps, Sign.apply,
            Nat.shiftLeft_eq, Nat.pow_zero, Nat.mul_one]
          exact normalize_of_neg (by omega) (by omega) _

theorem add_lt_zero {zero : Float} (large : IsLarge number .negative mantissa exponent)
    (stands : IsWhole other whole) (nonnegative : 0 ≤ whole) (isZero : IsWhole zero 0) :
    other + number < zero := by
  rw [float_lt_iff]
  exact (large.rounded_add stands nonnegative).packed.compare_eq isZero (Int.le_refl 0)

end IsLarge

end ScriptEngine.Binary64
