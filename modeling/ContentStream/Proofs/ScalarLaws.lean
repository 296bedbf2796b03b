import Mathlib
import ContentStream.Proofs.ExactArithmetic
import ContentStream.Scalar.Double

set_option autoImplicit false

/-!
# Laws of coordinates

What doubles and exact fields have in common: the order is total on numbers, nothing lies below
itself, a product with zero is not positive, and a change of sign keeps a number finite. Doubles
have their infinities and NaN here.
-/
namespace ContentStream

class LawfulScalar (K : Type) [Scalar K] : Prop where
  isNaN_zero : Scalar.isNaN (0 : K) = false
  isNaN_one : Scalar.isNaN (1 : K) = false
  zero_le_one : (0 : K) ≤ 1
  not_lt_self (x : K) : ¬ x < x
  le_of_not_lt {x y : K} (hx : Scalar.isNaN x = false) (hy : Scalar.isNaN y = false)
    (h : ¬ y < x) : x ≤ y
  not_pos_mul_zero (x : K) : ¬ 0 < x * 0
  ofByte_zero : Scalar.ofByte 0 = (0 : K)

instance {K : Type} [ExactField K] : LawfulScalar K where
  isNaN_zero := Scalar.isNaN_eq_false 0
  isNaN_one := Scalar.isNaN_eq_false 1
  zero_le_one := zero_le_one
  not_lt_self x := lt_irrefl x
  le_of_not_lt _ _ h := not_lt.1 h
  not_pos_mul_zero x := by rw [mul_zero]; exact lt_irrefl 0
  ofByte_zero := by simp [Scalar.ofByte]

namespace Double
open Float.Model

theorem compare_swap (x y : UnpackedFloat) : (x.compare y).map Ordering.swap = y.compare x := by
  cases x with
  | notANumber => cases y <;> rfl
  | infinity s =>
    cases y with
    | infinity t => cases s <;> cases t <;> rfl
    | _ => cases s <;> rfl
  | zero s =>
    cases y with
    | infinity t | finite t => cases t <;> rfl
    | _ => rfl
  | finite s m e hm =>
    cases y with
    | finite t m' e' hm' =>
      cases s <;> cases t <;>
        simp [UnpackedFloat.compare, Ordering.swap_then, Nat.compare_swap, Int.compare_swap]
    | infinity t => cases s <;> cases t <;> rfl
    | _ => cases s <;> rfl

theorem compare_isSome {x y : UnpackedFloat} (hx : x.beq x = true) (hy : y.beq y = true) :
    (x.compare y).isSome := by
  cases x with
  | notANumber => exact absurd hx (by decide)
  | infinity s =>
    cases y with
    | notANumber => exact absurd hy (by decide)
    | infinity t => cases s <;> cases t <;> rfl
    | _ => cases s <;> rfl
  | zero s =>
    cases y with
    | notANumber => exact absurd hy (by decide)
    | infinity t | finite t => cases t <;> rfl
    | zero => rfl
  | finite s m e hm =>
    cases y with
    | notANumber => exact absurd hy (by decide)
    | infinity t | finite t => cases s <;> cases t <;> rfl
    | zero => cases s <;> rfl

theorem lt_iff (x y : Float) :
    x < y ↔ x.toModel.unpack.compare y.toModel.unpack = some .lt :=
  decide_eq_true_iff.trans beq_iff_eq

theorem le_iff (x y : Float) :
    x ≤ y ↔ (x.toModel.unpack.compare y.toModel.unpack).any (·.isLE) = true :=
  decide_eq_true_iff

theorem not_lt_self (x : Float) : ¬ x < x := by
  rw [lt_iff]
  intro h
  have hswap := compare_swap x.toModel.unpack x.toModel.unpack
  rw [h] at hswap
  exact absurd hswap (by decide)

theorem le_of_not_lt {x y : Float} (hx : (x == x) = true) (hy : (y == y) = true)
    (h : ¬ y < x) : x ≤ y := by
  rw [lt_iff, ← compare_swap] at h
  rw [le_iff]
  have hsome : (x.toModel.unpack.compare y.toModel.unpack).isSome := compare_isSome hx hy
  obtain ⟨o, ho⟩ := Option.isSome_iff_exists.1 hsome
  rw [ho] at h ⊢
  cases o with
  | gt => exact absurd rfl h
  | _ => rfl

theorem unpack_zero : (0.0 : Float).toModel.unpack = .zero .positive := rfl

theorem mul_zero_cases (x : UnpackedFloat) (s : UnpackedFloat.Sign) :
    UnpackedFloat.mul .binary64 x (.zero s) = .notANumber ∨
      ∃ t, UnpackedFloat.mul .binary64 x (.zero s) = .zero t := by
  cases x with
  | notANumber | infinity => exact .inl rfl
  | zero t | finite t => exact .inr ⟨t * s, rfl⟩

theorem not_pos_mul_zero (x : Float) : ¬ 0.0 < x * 0.0 := by
  have hunpack : (x * 0.0).toModel.unpack = UnpackedFloat.unpack .binary64
      (UnpackedFloat.pack .binary64
        (UnpackedFloat.mul .binary64 x.toModel.unpack (.zero .positive))) := by
    rw [← unpack_zero]
    rfl
  rw [lt_iff, unpack_zero, hunpack]
  -- Zeros and NaN are kept in packing.
  rcases mul_zero_cases x.toModel.unpack .positive with h | ⟨t, h⟩
  · rw [h]
    change UnpackedFloat.compare _ (UnpackedFloat.unpack _ (UnpackedFloat.packedNaN _)) ≠ _
    rw [UnpackedFloat.unpack_packedNaN]
    nofun
  · rw [h]
    change UnpackedFloat.compare _ (UnpackedFloat.unpack _ (UnpackedFloat.packedZero _ t)) ≠ _
    rw [UnpackedFloat.unpack_packedZero]
    nofun

theorem beq_self_of_isNaN {x : Float} (h : Scalar.isNaN x = false) : (x == x) = true := by
  simpa only [Scalar.isNaN, Bool.not_eq_eq_eq_not, Bool.not_false] using h

end Double

instance : LawfulScalar Float where
  isNaN_zero := by decide +kernel
  isNaN_one := by decide +kernel
  zero_le_one := by decide +kernel
  not_lt_self := Double.not_lt_self
  le_of_not_lt hx hy h :=
    Double.le_of_not_lt (Double.beq_self_of_isNaN hx) (Double.beq_self_of_isNaN hy) h
  not_pos_mul_zero := Double.not_pos_mul_zero
  ofByte_zero := by decide +kernel

class FiniteScalar (K : Type) [Scalar K] : Prop where
  isFinite_zero : Scalar.isFinite (0 : K) = true
  isFinite_one : Scalar.isFinite (1 : K) = true
  isFinite_ten : Scalar.isFinite ((10 : ℕ) : K) = true
  isFinite_hundred : Scalar.isFinite ((100 : ℕ) : K) = true
  isFinite_neg {x : K} (h : Scalar.isFinite x = true) : Scalar.isFinite (-x) = true

instance {K : Type} [ExactField K] : FiniteScalar K where
  isFinite_zero := rfl
  isFinite_one := rfl
  isFinite_ten := rfl
  isFinite_hundred := rfl
  isFinite_neg _ := rfl

namespace Double
open Float.Model

theorem isFinite_unpack_iff (spec : Format) (b : BitVec spec.numBits) :
    (UnpackedFloat.unpack spec b).isFinite = true ↔ UnpackedFloat.unpackExponent b ≠ -1#_ := by
  unfold UnpackedFloat.unpack
  dsimp only
  split
  · rename_i h
    split <;> simp [UnpackedFloat.isFinite, h]
  · rename_i h
    split
    · split <;> simp [UnpackedFloat.isFinite, h]
    · simp [UnpackedFloat.isFinite, h]

theorem unpackExponent_pack_neg (spec : Format) (x : UnpackedFloat) :
    UnpackedFloat.unpackExponent (UnpackedFloat.pack spec x.neg) =
      UnpackedFloat.unpackExponent (UnpackedFloat.pack spec x) := by
  cases x with
  | finite s m e hm =>
    simp only [UnpackedFloat.neg, UnpackedFloat.pack, UnpackedFloat.packedInfinity]
    split
    · simp
    · split <;> simp
  | _ =>
    simp [UnpackedFloat.neg, UnpackedFloat.pack, UnpackedFloat.packedInfinity,
      UnpackedFloat.packedZero]

theorem isFinite_neg {x : Float} (h : x.isFinite = true) : (-x).isFinite = true := by
  have hbits : UnpackedFloat.pack .binary64 x.toModel.unpack = x.toModel.toBits.toBitVec :=
    UnpackedFloat.pack_unpack_of_valid x.toModel.valid
  have hx := (isFinite_unpack_iff .binary64 x.toModel.toBits.toBitVec).1 h
  rw [← hbits, ← unpackExponent_pack_neg] at hx
  exact (isFinite_unpack_iff .binary64 _).2 hx

end Double

instance : FiniteScalar Float where
  isFinite_zero := by decide +kernel
  isFinite_one := by decide +kernel
  isFinite_ten := by decide +kernel
  isFinite_hundred := by decide +kernel
  isFinite_neg := Double.isFinite_neg

namespace Scalar
variable {K : Type} [Scalar K]

def InUnit (x : K) : Prop := 0 ≤ x ∧ x ≤ 1

variable [LawfulScalar K]

theorem inUnit_zero : InUnit (0 : K) :=
  ⟨LawfulScalar.le_of_not_lt LawfulScalar.isNaN_zero LawfulScalar.isNaN_zero
    (LawfulScalar.not_lt_self 0), LawfulScalar.zero_le_one⟩

theorem inUnit_one : InUnit (1 : K) :=
  ⟨LawfulScalar.zero_le_one, LawfulScalar.le_of_not_lt LawfulScalar.isNaN_one
    LawfulScalar.isNaN_one (LawfulScalar.not_lt_self 1)⟩

theorem inUnit_clamp {x : K} (hx : isNaN x = false) : InUnit (clamp x 0 1) := by
  unfold clamp
  dsimp only
  split
  · split
    · exact inUnit_one
    · exact inUnit_zero
  · rename_i hneg
    split
    · exact inUnit_one
    · exact ⟨LawfulScalar.le_of_not_lt LawfulScalar.isNaN_zero hx hneg,
        LawfulScalar.le_of_not_lt hx LawfulScalar.isNaN_one ‹_›⟩

theorem inUnit_clampUnit (x : K) : InUnit (clampUnit x) := by
  unfold clampUnit
  split
  · exact inUnit_zero
  · exact inUnit_clamp (Bool.eq_false_of_not_eq_true ‹_›)

end Scalar
end ContentStream
