import Mathlib
import ContentStream.Scalar

set_option autoImplicit false

namespace ContentStream

class ExactField (K : Type) extends Field K, LinearOrder K, IsStrictOrderedRing K,
    FloorSemiring K where
  sqrt : K → K
  hypot : K → K → K
  pow : K → K → K

/-- The bound on finite numbers is that of doubles. -/
instance ExactField.toScalar {K : Type} [ExactField K] : Scalar K where
  isFinite _ := true
  maxFinite := ((9007199254740991 * Nat.pow 2 971 : Nat) : K)
  truncate x := ⌊x⌋₊
  sqrt := ExactField.sqrt
  hypot := ExactField.hypot
  pow := ExactField.pow

/-- Rational numbers, with roots that are exact on squares. -/
instance : ExactField ℚ where
  sqrt x := (Nat.sqrt (x.num.toNat * x.den) : ℚ) / x.den
  hypot x y := (Nat.sqrt ((x * x + y * y).num.toNat * (x * x + y * y).den) : ℚ) /
    (x * x + y * y).den
  pow x y := x ^ ⌊y⌋₊

namespace Scalar
variable {K : Type} [ExactField K]

@[simp] theorem isNaN_eq_false (x : K) : isNaN x = false := by
  simp [isNaN]

theorem min_eq (x y : K) : Scalar.min x y = min x y := by
  unfold Scalar.min
  rw [isNaN_eq_false]
  simp only [Bool.false_eq_true, if_false]
  split
  · exact (min_eq_right (le_of_lt ‹_›)).symm
  · exact (min_eq_left (not_lt.1 ‹_›)).symm

theorem max_eq (x y : K) : Scalar.max x y = max x y := by
  unfold Scalar.max
  rw [isNaN_eq_false]
  simp only [Bool.false_eq_true, if_false]
  split
  · exact (max_eq_right (le_of_lt ‹_›)).symm
  · exact (max_eq_left (not_lt.1 ‹_›)).symm

theorem clamp_eq (x lo hi : K) : clamp x lo hi = min (max x lo) hi := by
  have hlow : (if x < lo then lo else x) = max x lo := by
    split
    · exact (max_eq_right (le_of_lt ‹_›)).symm
    · exact (max_eq_left (not_lt.1 ‹_›)).symm
  unfold clamp
  dsimp only
  rw [hlow]
  split
  · exact (min_eq_right (le_of_lt ‹_›)).symm
  · exact (min_eq_left (not_lt.1 ‹_›)).symm

theorem clampUnit_eq (x : K) : clampUnit x = min (max x 0) 1 := by
  unfold clampUnit
  rw [isNaN_eq_false]
  exact clamp_eq x 0 1

theorem clampUnit_nonneg (x : K) : 0 ≤ clampUnit x := by
  rw [clampUnit_eq]
  exact le_min (le_max_right x 0) zero_le_one

theorem clampUnit_le_one (x : K) : clampUnit x ≤ 1 := by
  rw [clampUnit_eq]
  exact min_le_right _ _

theorem clampUnit_of_mem {x : K} (h : 0 ≤ x) (h' : x ≤ 1) : clampUnit x = x := by
  rw [clampUnit_eq, max_eq_left h, min_eq_left h']

@[simp] theorem toByte_clampUnit (x : K) : toByte (clampUnit x) = toByte x := by
  unfold toByte
  rw [clampUnit_of_mem (clampUnit_nonneg x) (clampUnit_le_one x)]

@[simp] theorem toByte_zero : toByte (0 : K) = 0 := by
  have hround : round (0 : K) = 0 := by
    have htruncate : truncate (0 : K) = 0 := Nat.floor_zero
    unfold round
    rw [htruncate]
    norm_num
  unfold toByte
  rw [clampUnit_of_mem le_rfl zero_le_one, zero_mul, hround]
  rfl

theorem ofByte_nonneg (b : UInt8) : (0 : K) ≤ ofByte b :=
  div_nonneg (Nat.cast_nonneg _) (Nat.cast_nonneg _)

end Scalar
end ContentStream
