import Mathlib
import ScriptEngine.Decimal.Binary64

/-!
# Doubles taken apart

The operations on doubles take the bits apart into a sign, a mantissa and an exponent, compute
with these, and put the result together again. Here is what the two ways keep: a number that is
put together from parts a double can have comes apart into the same parts
(`Binary64.unpack_pack`), and the decomposition into a mantissa and a power of two reads these
parts (`Binary64.ofFloat_eq`).

Two numbers are equal if their parts are, up to the sign of zero, and if they are numbers at
all. So the equality of numbers is symmetric and transitive (`Binary64.float_eq_comm`,
`Binary64.float_eq_trans`).
-/

set_option autoImplicit false

namespace ScriptEngine.Binary64

open Float.Model Float.Model.UnpackedFloat

/-!
## Equality
-/

/-- The same number, but zero has only one sign. -/
def unsignedZero : UnpackedFloat → UnpackedFloat
  | .zero _ => .zero .positive
  | number => number

theorem compare_sign_eq (left right : Sign) : compare left right = .eq ↔ left = right := by
  cases left <;> cases right
  · exact ⟨fun _ => rfl, fun _ => rfl⟩
  · exact ⟨nofun, nofun⟩
  · exact ⟨nofun, nofun⟩
  · exact ⟨fun _ => rfl, fun _ => rfl⟩

theorem compare_eq_some_eq (left right : UnpackedFloat) :
    left.compare right = some .eq ↔
      left ≠ .notANumber ∧ unsignedZero left = unsignedZero right := by
  cases left with
  | notANumber => simp [UnpackedFloat.compare]
  | infinity sign =>
      cases right with
      | infinity other => simp [UnpackedFloat.compare, unsignedZero, compare_sign_eq]
      | finite | zero | notANumber => cases sign <;> simp [UnpackedFloat.compare, unsignedZero]
  | zero sign =>
      cases right with
      | infinity other | finite other =>
          cases other <;> simp [UnpackedFloat.compare, unsignedZero]
      | zero | notANumber => simp [UnpackedFloat.compare, unsignedZero]
  | finite sign mantissa exponent positive =>
      cases right with
      | infinity other =>
          cases sign <;> cases other <;> simp [UnpackedFloat.compare, unsignedZero]
      | finite other =>
          cases sign <;> cases other <;>
            simp [UnpackedFloat.compare, unsignedZero, Ordering.then_eq_eq, and_comm]
      | zero | notANumber => cases sign <;> simp [UnpackedFloat.compare, unsignedZero]

theorem float_eq_iff (left right : Float) :
    (left == right) = true ↔ left.toModel.unpack ≠ .notANumber ∧
      unsignedZero left.toModel.unpack = unsignedZero right.toModel.unpack := by
  rw [← compare_eq_some_eq]
  exact beq_iff_eq (a := left.toModel.unpack.compare right.toModel.unpack) (b := some .eq)

theorem ne_notANumber_of_unsignedZero {left right : UnpackedFloat} (number : left ≠ .notANumber)
    (same : unsignedZero left = unsignedZero right) : right ≠ .notANumber := by
  intro odd
  subst odd
  cases left with
  | notANumber => exact number rfl
  | infinity | zero | finite => cases same

theorem float_eq_symm {left right : Float} (same : (left == right) = true) :
    (right == left) = true := by
  rw [float_eq_iff] at same ⊢
  exact ⟨ne_notANumber_of_unsignedZero same.1 same.2, same.2.symm⟩

theorem float_eq_comm (left right : Float) : (left == right) = (right == left) :=
  Bool.eq_iff_iff.mpr ⟨float_eq_symm, float_eq_symm⟩

theorem float_eq_trans {first second third : Float} (early : (first == second) = true)
    (late : (second == third) = true) : (first == third) = true := by
  rw [float_eq_iff] at early late ⊢
  exact ⟨early.1, early.2.trans late.2⟩

/-!
## The parts of a word
-/

section

variable (bits : BitVec Format.binary64.numBits)

theorem toNat_unpackMantissa : (unpackMantissa bits).toNat = bits.toNat % 2 ^ 52 := by
  simp [unpackMantissa]

theorem toNat_unpackExponent : (unpackExponent bits).toNat = bits.toNat / 2 ^ 52 % 2 ^ 11 := by
  simp [unpackExponent, Nat.shiftRight_eq_div_pow]

theorem toNat_unpackSign : (unpackSign bits).toNat = bits.toNat / 2 ^ 63 := by
  have few : bits.toNat < 2 ^ 64 := bits.isLt
  simp only [unpackSign, BitVec.toNat_cast, BitVec.extractLsb_toNat, Nat.shiftRight_eq_div_pow]
  exact Nat.mod_eq_of_lt (by omega)

end

theorem toNat_one_append (mantissa : BitVec 52) :
    (1#1 ++ mantissa).toNat = 2 ^ 52 + mantissa.toNat := by
  rw [BitVec.toNat_append, ← Nat.shiftLeft_add_eq_or_of_lt mantissa.isLt]
  simp [Nat.shiftLeft_eq]

theorem eq_negOne_iff (exponent : BitVec 11) : exponent = -1#11 ↔ exponent.toNat = 2047 := by
  rw [← BitVec.toNat_inj]
  rfl

theorem eq_zero_iff {width : Nat} (bits : BitVec width) :
    bits = .ofNat width 0 ↔ bits.toNat = 0 := by
  rw [← BitVec.toNat_inj]
  simp

theorem exponentBias_eq : (Format.binary64.exponentBias : Int) = 1023 := rfl

theorem biased_eq (exponent : Int) :
    exponent + Format.binary64.exponentBias + (52 : Nat) = exponent + 1075 := by
  rw [Int.add_assoc]
  rfl

theorem sign_packComponents (sign : Sign) (exponent : BitVec 11) (mantissa : BitVec 52) :
    Sign.ofBitVec (unpackSign (packComponents .binary64 sign exponent mantissa)) = sign := by
  simp only [unpackSign, packComponents, BitVec.extractLsb]
  rw [BitVec.extractLsb'_append_eq_of_le (by decide),
    BitVec.extractLsb'_append_eq_of_le (by decide)]
  cases sign <;> rfl

theorem unpack_packComponents (sign : Sign) (exponent : BitVec 11) (mantissa : BitVec 52) :
    UnpackedFloat.unpack .binary64 (packComponents .binary64 sign exponent mantissa) =
      if exponent.toNat = 2047 then
        if mantissa.toNat = 0 then .infinity sign else .notANumber
      else if exponent.toNat = 0 then
        if positive : mantissa.toNat ≠ 0 then
          .finite sign mantissa.toNat (-1074) (Nat.pos_of_ne_zero positive)
        else .zero sign
      else .finite sign (2 ^ 52 + mantissa.toNat) (exponent.toNat - 1075) (by omega) := by
  simp only [UnpackedFloat.unpack, unpackMantissa_packComponents, unpackExponent_packComponents,
    sign_packComponents, eq_negOne_iff, eq_zero_iff, toNat_one_append]
  split
  · rfl
  · split
    · split <;> simp_all [exponentBias_eq]
    · simp [exponentBias_eq]

/-!
## Parts that a double can have
-/

/-- The parts that a double can have. Only the least exponent stands with mantissas of less than
53 bits. -/
inductive Canonical : UnpackedFloat → Prop where
  | notANumber : Canonical .notANumber
  | infinity (sign : Sign) : Canonical (.infinity sign)
  | zero (sign : Sign) : Canonical (.zero sign)
  | finite {sign : Sign} {mantissa : Nat} {exponent : Int} (positive : 0 < mantissa)
      (below : mantissa < 2 ^ 53) (least : -1074 ≤ exponent) (most : exponent ≤ 971)
      (leading : 2 ^ 52 ≤ mantissa ∨ exponent = -1074) :
      Canonical (.finite sign mantissa exponent positive)

theorem canonical_unpack (bits : BitVec Format.binary64.numBits) :
    Canonical (UnpackedFloat.unpack .binary64 bits) := by
  have mantissaBound : (unpackMantissa bits).toNat < 2 ^ 52 := (unpackMantissa bits).isLt
  have exponentBound : (unpackExponent bits).toNat < 2 ^ 11 := (unpackExponent bits).isLt
  have bias := exponentBias_eq
  unfold UnpackedFloat.unpack
  dsimp only
  split
  · split
    · exact .infinity _
    · exact .notANumber
  · next ordinary =>
      rw [eq_negOne_iff] at ordinary
      split
      · next least =>
          rw [eq_zero_iff] at least
          split
          · exact .zero _
          · exact .finite _ (by omega) (by omega) (by omega) (.inr (by omega))
      · next normal =>
          rw [eq_zero_iff] at normal
          have leading := toNat_one_append (unpackMantissa bits)
          exact .finite _ (by omega) (by omega) (by omega) (.inl (by omega))

theorem log2_eq_of_leading {mantissa : Nat} (leading : 2 ^ 52 ≤ mantissa)
    (below : mantissa < 2 ^ 53) : mantissa.log2 = 52 := by
  have nonzero : mantissa ≠ 0 := by omega
  have atLeast := (Nat.le_log2 nonzero).mpr leading
  have atMost := (Nat.log2_lt nonzero).mpr below
  omega

/-- What is put together comes apart into the same parts. -/
theorem unpack_pack {number : UnpackedFloat} (canonical : Canonical number) :
    (Float.Model.pack number).unpack = number := by
  show UnpackedFloat.unpack .binary64 (UnpackedFloat.pack .binary64 number) = number
  cases canonical with
  | notANumber => rfl
  | infinity sign => cases sign <;> rfl
  | zero sign => cases sign <;> rfl
  | @finite sign mantissa exponent positive below least most leading =>
      have width : Format.binary64.mantissaBits = 53 := rfl
      simp only [UnpackedFloat.pack, biased_eq, width]
      rw [if_neg (by omega)]
      rcases Nat.lt_or_ge mantissa (2 ^ 52) with subnormal | normal
      · have short : mantissa.log2 < 52 := (Nat.log2_lt (by omega)).mpr subnormal
        have last : exponent = -1074 := by omega
        subst last
        have kept : mantissa % 4503599627370496 = mantissa := Nat.mod_eq_of_lt subnormal
        rw [if_neg (by omega), unpack_packComponents]
        simp [kept, Nat.ne_of_gt positive]
      · have kept : 2 ^ 52 + mantissa % 2 ^ 52 = mantissa := by omega
        have biased : ((exponent + 1075).toNat : Int) = exponent + 1075 :=
          Int.toNat_of_nonneg (by omega)
        rw [if_pos (by rw [log2_eq_of_leading normal below]), unpack_packComponents]
        simp only [BitVec.toNat_ofNat, kept]
        rw [if_neg (by omega), if_neg (by omega), Nat.mod_eq_of_lt (by omega)]
        simp [biased]

/-!
## Mantissa and power of two
-/

def isNegative : Sign → Bool
  | .negative => true
  | .positive => false

theorem isNegative_ofBitVec (bit : BitVec 1) :
    isNegative (Sign.ofBitVec bit) = (bit.toNat == 1) := by
  rcases BitVec.eq_zero_or_eq_one bit with zero | one
  · subst zero
    rfl
  · subst one
    rfl

/-- The exact value of the parts. -/
def ofUnpacked : UnpackedFloat → Binary64
  | .notANumber => .notANumber
  | .infinity sign => .infinite (isNegative sign)
  | .zero sign => .finite (isNegative sign) 0 leastExponent
  | .finite sign mantissa exponent _ => .finite (isNegative sign) mantissa exponent

theorem ofFloat_eq (number : Float) :
    ofFloat number = ofUnpacked number.toModel.unpack := by
  have mantissa := toNat_unpackMantissa number.toModel.toBits.toBitVec
  have exponent := toNat_unpackExponent number.toModel.toBits.toBitVec
  have sign := toNat_unpackSign number.toModel.toBits.toBitVec
  have leading :=
    toNat_one_append (@unpackMantissa .binary64 number.toModel.toBits.toBitVec)
  have hidden : hiddenBit = 2 ^ 52 := rfl
  simp only [UInt64.toNat_toBitVec, Nat.reducePow] at mantissa exponent sign leading hidden
  simp only [ofFloat, Float.toBits, Nat.shiftRight_eq_div_pow, hidden, Float.Model.unpack,
    UnpackedFloat.unpack, eq_negOne_iff, eq_zero_iff, exponent, mantissa, Nat.reducePow]
  split
  · split
    · simp [ofUnpacked, isNegative_ofBitVec, sign]
    · rfl
  · split
    · split
      · next zero => simp [ofUnpacked, isNegative_ofBitVec, sign, zero]
      · simp [ofUnpacked, isNegative_ofBitVec, sign, exponentBias_eq, leastExponent]
        omega
    · simp [ofUnpacked, isNegative_ofBitVec, sign, exponentBias_eq, mantissa, leading]
      omega

end ScriptEngine.Binary64
