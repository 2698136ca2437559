import ScriptEngine.Proofs.Decimal.Integers
import ScriptEngine.Value.Element

/-!
# Positions that indices mean

An index is a number that is an integer, and it means a position from either end
(`indexPosition_eq_ok_iff`). The position is computed exactly. Computing it in doubles, with a sum
that is rounded, gives the same position and the same errors for every number, as long as the
length is below 2 to the power of 53 (`roundedPosition_eq`): the sum of a negative index and the
length is exact unless it is far out of range, and then its sign is still right.
-/

set_option autoImplicit false

namespace ScriptEngine

open Binary64

/-- The position of an index, computed in doubles. -/
def roundedPosition (number : Float) (length : Nat) : Except RuntimeCause Nat :=
  if (integer? number).isNone then .error (.invalidArgument (.number number))
  else
    let position := if number < 0 then Float.ofNat length + number else number
    if position < 0 ∨ Float.ofNat length ≤ position then
      .error (.indexOutOfRange (.number number) length)
    else .ok position.toUInt64.toNat

variable {number : Float} {length position : Nat} {whole : Int}

theorem indexPosition_of_integer (integer : integer? number = some whole) :
    indexPosition (.number number) length =
      if -length ≤ whole ∧ whole < length then
        .ok (if whole < 0 then length + whole else whole).toNat
      else .error (.indexOutOfRange (.number number) length) := by
  simp only [indexPosition, integer]
  split <;> split <;> split <;> first | rfl | omega

theorem indexPosition_of_no_integer (none : integer? number = none) :
    indexPosition (.number number) length = .error (.invalidArgument (.number number)) := by
  simp only [indexPosition, none]

/-- A position has two indices: one counts from the start, the other one from the end. -/
theorem indexPosition_eq_ok_iff {index : Value} :
    indexPosition index length = .ok position ↔
      position < length ∧ ∃ number whole, index = .number number ∧
        integer? number = some whole ∧ (whole = position ∨ whole = position - (length : Int)) := by
  constructor
  · intro found
    cases index with
    | number number =>
        cases integer : integer? number with
        | none =>
            rw [indexPosition_of_no_integer integer] at found
            cases found
        | some whole =>
            rw [indexPosition_of_integer integer] at found
            split at found
            · cases found
              refine ⟨?_, number, whole, rfl, integer, ?_⟩ <;> split <;> omega
            · cases found
    | none | text | bool | array | record | function => cases found
  · rintro ⟨inside, number, whole, rfl, integer, same⟩
    rw [indexPosition_of_integer integer, if_pos (by omega)]
    congr 1
    split <;> omega

theorem lt_of_indexPosition {index : Value} (found : indexPosition index length = .ok position) :
    position < length :=
  (indexPosition_eq_ok_iff.mp found).1

/-- A position below the bound has its indices as doubles. -/
theorem integer?_indices (small : length < 2 ^ 53) (inside : position < length) :
    integer? (Float.ofNat position) = some (position : Int) ∧
      integer? (Float.ofNat position - Float.ofNat length) = some (position - length : Int) := by
  have whole := isWhole_ofNat (Nat.lt_trans inside small)
  have difference := whole.sub (isWhole_ofNat small) (by omega)
  exact ⟨whole.integer?, difference.integer?⟩

/-!
## Computing in doubles
-/

theorem isWhole_zero : IsWhole 0 0 :=
  isWhole_ofNat (show 0 < 2 ^ 53 by decide)

/-- What is decided of a sum that is exact. -/
theorem bounds_of_isWhole (small : length < 2 ^ 53) {sum : Float} (exact : IsWhole sum whole)
    (failure : Except RuntimeCause Nat) :
    (if sum < 0 ∨ Float.ofNat length ≤ sum then failure else .ok sum.toUInt64.toNat) =
      if 0 ≤ whole ∧ whole < length then .ok whole.toNat else failure := by
  have below := exact.lt_iff isWhole_zero
  have above := (isWhole_ofNat small).le_iff exact
  by_cases inside : 0 ≤ whole ∧ whole < length
  · have notOutside : ¬(sum < 0 ∨ Float.ofNat length ≤ sum) := by
      intro outside
      rcases outside with outside | outside
      · exact Int.not_lt.mpr inside.1 (below.mp outside)
      · exact Int.not_le.mpr inside.2 (above.mp outside)
    obtain ⟨position, rfl⟩ := Int.eq_ofNat_of_zero_le inside.1
    rw [if_neg notOutside, if_pos inside]
    exact congrArg Except.ok (Whole.toUInt64 exact)
  · have outside : whole < 0 ∨ length ≤ whole := by omega
    rw [if_pos (outside.imp below.mpr above.mpr), if_neg inside]

/-- Rounding changes no position. -/
theorem roundedPosition_eq (small : length < 2 ^ 53) (number : Float) :
    roundedPosition number length = indexPosition (.number number) length := by
  have size := isWhole_ofNat small
  cases integer : integer? number with
  | none =>
      rw [indexPosition_of_no_integer integer]
      simp [roundedPosition, integer]
  | some whole =>
      rw [indexPosition_of_integer integer]
      simp only [roundedPosition, integer, Option.isNone_some, Bool.false_eq_true, if_false]
      rcases isWhole_or_isLarge integer with exact | ⟨sign, mantissa, exponent, large, rfl⟩
      · have bound := exact.natAbs_lt
        by_cases negative : whole < 0
        · rw [if_pos ((exact.lt_iff isWhole_zero).mpr negative),
            bounds_of_isWhole small (size.add exact (by omega)), if_pos negative]
          congr 1
          exact propext (by omega)
        · rw [if_neg (fun below => negative ((exact.lt_iff isWhole_zero).mp below)),
            bounds_of_isWhole small exact, if_neg negative]
          congr 1
          exact propext (by omega)
      · have bound := large.two_pow_le
        cases sign with
        | negative =>
            have below := large.add_lt_zero size (by omega) isWhole_zero
            rw [if_pos (large.lt isWhole_zero (Int.le_refl 0)), if_pos (.inl below), if_neg]
            simp only [Float.Model.UnpackedFloat.Sign.apply]
            omega
        | positive =>
            rw [if_neg (large.not_lt isWhole_zero), if_pos (.inr (large.le size)), if_neg]
            simp only [Float.Model.UnpackedFloat.Sign.apply]
            omega

end ScriptEngine
