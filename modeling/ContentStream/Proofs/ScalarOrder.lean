import Mathlib
import ContentStream.Proofs.ScalarLaws

set_option autoImplicit false

namespace ContentStream

class OrderedScalar (K : Type) [Scalar K] : Prop extends LawfulScalar K where
  le_of_lt {x y : K} (h : x < y) : x ≤ y
  le_trans {x y z : K} (h : x ≤ y) (h' : y ≤ z) : x ≤ z
  isNaN_of_le {x y : K} (h : x ≤ y) : Scalar.isNaN x = false ∧ Scalar.isNaN y = false
  isNaN_maxFinite : Scalar.isNaN (Scalar.maxFinite : K) = false
  isNaN_neg_maxFinite : Scalar.isNaN (-Scalar.maxFinite : K) = false

instance {K : Type} [ExactField K] : OrderedScalar K where
  le_of_lt h := LT.lt.le h
  le_trans h h' := LE.le.trans h h'
  isNaN_of_le _ := ⟨Scalar.isNaN_eq_false _, Scalar.isNaN_eq_false _⟩
  isNaN_maxFinite := Scalar.isNaN_eq_false _
  isNaN_neg_maxFinite := Scalar.isNaN_eq_false _

namespace Double
open Float.Model

/-- The place of a float in the order, by sign, exponent and mantissa; NaN has none. -/
def rank? : UnpackedFloat → Option (ℤ ×ₗ ℤ ×ₗ ℤ)
  | .infinity .positive => some (toLex (2, toLex (0, 0)))
  | .infinity .negative => some (toLex (-2, toLex (0, 0)))
  | .zero _ => some (toLex (0, toLex (0, 0)))
  | .finite .positive m e _ => some (toLex (1, toLex (e, (m : ℤ))))
  | .finite .negative m e _ => some (toLex (-1, toLex (-e, -(m : ℤ))))
  | .notANumber => none

theorem isLE_then_compare (e e' : ℤ) (m m' : ℕ) :
    ((compare e e').then (compare m m')).isLE = true ↔ e < e' ∨ e = e' ∧ m ≤ m' := by
  rw [Ordering.isLE_then_iff_or, compare_lt_iff_lt, compare_eq_iff_eq, Nat.isLE_compare]

theorem compare_isLE_iff (x y : UnpackedFloat) : (x.compare y).any (·.isLE) = true ↔
    ∃ r s, rank? x = some r ∧ rank? y = some s ∧ r ≤ s := by
  cases x with
  | notANumber => cases y <;> simp [rank?, UnpackedFloat.compare]
  | infinity s =>
    cases y with
    | infinity t => cases s <;> cases t <;> simp [rank?, UnpackedFloat.compare] <;> decide
    | finite t =>
      cases s <;> cases t <;> simp [rank?, UnpackedFloat.compare, Prod.Lex.toLex_le_toLex]
    | _ => cases s <;> simp [rank?, UnpackedFloat.compare, Prod.Lex.toLex_le_toLex]
  | zero s =>
    cases y with
    | infinity t | finite t =>
      cases t <;> simp [rank?, UnpackedFloat.compare, Prod.Lex.toLex_le_toLex]
    | _ => simp [rank?, UnpackedFloat.compare]
  | finite s m e hm =>
    cases y with
    | finite t m' e' hm' =>
      have hcomm : e' = e ↔ e = e' := eq_comm
      cases s <;> cases t <;>
        simp [rank?, UnpackedFloat.compare, Prod.Lex.toLex_le_toLex, isLE_then_compare,
          Ordering.swap_then, Nat.compare_swap, Int.compare_swap, -Ordering.isLE_swap, hcomm]
    | infinity t =>
      cases s <;> cases t <;> simp [rank?, UnpackedFloat.compare, Prod.Lex.toLex_le_toLex]
    | _ => cases s <;> simp [rank?, UnpackedFloat.compare, Prod.Lex.toLex_le_toLex]

theorem le_of_lt {x y : Float} (h : x < y) : x ≤ y := by
  rw [lt_iff] at h
  rw [le_iff, h]
  rfl

theorem le_trans {x y z : Float} (h : x ≤ y) (h' : y ≤ z) : x ≤ z := by
  rw [le_iff, compare_isLE_iff] at h h' ⊢
  obtain ⟨r, s, hr, hs, hle⟩ := h
  obtain ⟨s', t, hs', ht, hle'⟩ := h'
  obtain rfl := Option.some.inj (hs.symm.trans hs')
  exact ⟨r, t, hr, ht, hle.trans hle'⟩

theorem isNaN_of_rank {x : Float} {r : ℤ ×ₗ ℤ ×ₗ ℤ} (h : rank? x.toModel.unpack = some r) :
    Scalar.isNaN x = false := by
  have hself : x.toModel.unpack.beq x.toModel.unpack = true := by
    generalize x.toModel.unpack = u at h
    cases u with
    | notANumber => exact absurd h (by simp [rank?])
    | zero => rfl
    | infinity s => cases s <;> rfl
    | finite s m e hm => cases s <;> simp [UnpackedFloat.beq, UnpackedFloat.compare]
  change (!(x == x)) = false
  rw [show (x == x) = true from hself]
  rfl

theorem isNaN_of_le {x y : Float} (h : x ≤ y) :
    Scalar.isNaN x = false ∧ Scalar.isNaN y = false := by
  rw [le_iff, compare_isLE_iff] at h
  obtain ⟨r, s, hr, hs, -⟩ := h
  exact ⟨isNaN_of_rank hr, isNaN_of_rank hs⟩

end Double

instance : OrderedScalar Float where
  le_of_lt := Double.le_of_lt
  le_trans := Double.le_trans
  isNaN_of_le := Double.isNaN_of_le
  isNaN_maxFinite := by decide +kernel
  isNaN_neg_maxFinite := by decide +kernel

namespace Scalar
variable {K : Type} [Scalar K] [OrderedScalar K] {x : K}

theorem le_refl_of_number (hx : isNaN x = false) : x ≤ x :=
  LawfulScalar.le_of_not_lt hx hx (LawfulScalar.not_lt_self x)

theorem first_le_max (hx : isNaN x = false) (y : K) : x ≤ Scalar.max x y := by
  unfold Scalar.max
  rw [hx]
  simp only [Bool.false_eq_true, if_false]
  split
  · exact OrderedScalar.le_of_lt ‹_›
  · exact le_refl_of_number hx

theorem min_le_first (hx : isNaN x = false) (y : K) : Scalar.min x y ≤ x := by
  unfold Scalar.min
  rw [hx]
  simp only [Bool.false_eq_true, if_false]
  split
  · exact OrderedScalar.le_of_lt ‹_›
  · exact le_refl_of_number hx

end Scalar
end ContentStream
