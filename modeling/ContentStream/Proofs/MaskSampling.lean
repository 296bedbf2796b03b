import Mathlib
import ContentStream.Mask
import ContentStream.Proofs.Pixels
import ContentStream.Proofs.Rectangles

set_option autoImplicit false

namespace ContentStream
open Scalar
variable {K : Type} [ExactField K]

theorem abs_eq (x : K) : Scalar.abs x = |x| := by
  unfold Scalar.abs
  split
  · exact (abs_of_neg ‹_›).symm
  · exact (abs_of_nonneg (not_lt.1 ‹_›)).symm

theorem tolerance_pos : (0 : K) < Scalar.tolerance := by
  unfold Scalar.tolerance
  norm_num

theorem unitSpacing_pos : (0 : K) < unitSpacing := by
  unfold unitSpacing
  positivity

namespace Transform

theorem inverse?_isSome_iff (m : Transform K) :
    m.inverse?.isSome = true ↔ Scalar.tolerance ≤ |m.determinant| := by
  have hfinite : Scalar.isFinite m.determinant = true := rfl
  unfold inverse?
  dsimp only
  rw [abs_eq, hfinite]
  by_cases h : |m.determinant| < Scalar.tolerance
  · simp [h, h.not_ge]
  · simp [h, not_lt.1 h]

theorem determinant_ne_zero {m i : Transform K} (h : m.inverse? = some i) : m.determinant ≠ 0 := by
  have hsize := m.inverse?_isSome_iff.1 (by rw [h]; rfl)
  exact abs_pos.1 (tolerance_pos.trans_le hsize)

theorem inverse?_eq {m i : Transform K} (h : m.inverse? = some i) :
    i = ⟨m.d / m.determinant, -m.b / m.determinant, -m.c / m.determinant, m.a / m.determinant,
      -(m.e * (m.d / m.determinant) + m.f * (-m.c / m.determinant)),
      -(m.e * (-m.b / m.determinant) + m.f * (m.a / m.determinant))⟩ := by
  unfold inverse? at h
  dsimp only at h
  split at h
  · exact absurd h (by simp)
  · exact (Option.some.inj h).symm

theorem inverse_apply {m i : Transform K} (h : m.inverse? = some i) (p : Point K) :
    i.apply (m.apply p) = p := by
  have hne : m.determinant ≠ 0 := determinant_ne_zero h
  have hdet : m.determinant = m.a * m.d - m.b * m.c := rfl
  rw [inverse?_eq h]
  obtain ⟨x, y⟩ := p
  simp only [apply, Point.mk.injEq]
  generalize m.determinant = D at hne hdet
  constructor
  · field_simp
    rw [hdet]
    ring
  · field_simp
    rw [hdet]
    ring

theorem apply_inverse {m i : Transform K} (h : m.inverse? = some i) (p : Point K) :
    m.apply (i.apply p) = p := by
  have hne : m.determinant ≠ 0 := determinant_ne_zero h
  have hdet : m.determinant = m.a * m.d - m.b * m.c := rfl
  rw [inverse?_eq h]
  obtain ⟨x, y⟩ := p
  simp only [apply, Point.mk.injEq]
  generalize m.determinant = D at hne hdet
  constructor
  · field_simp
    rw [hdet]
    ring
  · field_simp
    rw [hdet]
    ring

end Transform

namespace Grid

/-- A point of the unit square lies in a pixel: on its left or upper edge too, but not on its right
or lower one, nor on the top of the square. -/
structure Covers (width height col row : Nat) (p : Point K) : Prop where
  left : (col : K) ≤ p.x * (width : K)
  right : p.x * (width : K) < (col : K) + 1
  upper : (row : K) ≤ (1 - p.y) * (height : K)
  lower : (1 - p.y) * (height : K) < (row : K) + 1
  below : p.y < 1

theorem covers_center {width height col row : Nat} (hcol : col < width) (hrow : row < height) :
    Covers width height col row (center width height col row : Point K) := by
  have hw : (width : K) ≠ 0 := Nat.cast_ne_zero.2 (Nat.ne_zero_of_lt hcol)
  have hh : (height : K) ≠ 0 := Nat.cast_ne_zero.2 (Nat.ne_zero_of_lt hrow)
  obtain ⟨hv, -⟩ := middle_mem (K := K) hrow
  have hx : ((col : K) + 0.5) / (width : K) * (width : K) = (col : K) + 0.5 := div_mul_cancel₀ _ hw
  have hy : (1 - (1 - ((row : K) + 0.5) / (height : K))) * (height : K) = (row : K) + 0.5 := by
    rw [sub_sub_cancel, div_mul_cancel₀ _ hh]
  unfold center
  refine ⟨?_, ?_, ?_, ?_, ?_⟩
  · rw [hx]
    linarith
  · rw [hx]
    linarith
  · rw [hy]
    linarith
  · rw [hy]
    linarith
  · exact sub_lt_self 1 hv

theorem toWord_eq {i : Nat} {x : K} (hi : i < UInt32.size) (hx : (i : K) ≤ x)
    (hx' : x < (i : K) + 1) : toWord x = i := by
  have hfloor : ⌊x⌋₊ = i := (Nat.floor_eq_iff ((Nat.cast_nonneg i).trans hx)).2 ⟨hx, hx'⟩
  change Nat.min ⌊x⌋₊ (UInt32.size - 1) = i
  rw [hfloor]
  exact Nat.min_eq_left (Nat.le_sub_one_of_lt hi)

theorem cell?_of_covers {width height col row : Nat} {p : Point K} (hwidth : width ≤ UInt32.size)
    (hheight : height ≤ UInt32.size) (hcol : col < width) (hrow : row < height)
    (h : Covers width height col row p) : cell? width height p = some (col, row) := by
  have hw : (0 : K) < (width : K) := Nat.cast_pos.2 (Nat.zero_lt_of_lt hcol)
  have hh : (0 : K) < (height : K) := Nat.cast_pos.2 (Nat.zero_lt_of_lt hrow)
  have hlastCol : (col : K) + 1 ≤ (width : K) := by exact_mod_cast hcol
  have hlastRow : (row : K) + 1 ≤ (height : K) := by exact_mod_cast hrow
  have hx : 0 ≤ p.x := nonneg_of_mul_nonneg_left ((Nat.cast_nonneg col).trans h.left) hw
  have hx' : p.x < 1 := by
    have hwhole : p.x * (width : K) < 1 * (width : K) := by linarith [h.right]
    exact lt_of_mul_lt_mul_right hwhole hw.le
  have hy : 0 ≤ p.y := by
    have hwhole : (1 - p.y) * (height : K) < 1 * (height : K) := by linarith [h.lower]
    linarith [lt_of_mul_lt_mul_right hwhole hh.le]
  unfold cell?
  rw [if_pos ⟨hx, hx', hy, h.below⟩, toWord_eq (hcol.trans_le hwidth) h.left h.right,
    toWord_eq (hrow.trans_le hheight) h.upper h.lower]
  exact congrArg some (Prod.ext (Nat.min_eq_left (Nat.le_sub_one_of_lt hcol))
    (Nat.min_eq_left (Nat.le_sub_one_of_lt hrow)))

end Grid

namespace Mask

theorem sample_of_inverse? {m : Mask K} {i : Transform K} (h : m.matrix.inverse? = some i)
    (p : Point K) : m.sample p =
      ((Grid.cell? m.width m.height (i.apply p)).map fun cell => m.get cell.1 cell.2).getD 0 := by
  unfold sample
  rw [h]
  dsimp only
  cases Grid.cell? m.width m.height (i.apply p) <;> rfl

/-- All of the page that a pixel is placed over has its byte. -/
theorem sample_of_covers {m : Mask K} {i : Transform K} (h : m.matrix.inverse? = some i)
    (hwidth : m.width ≤ UInt32.size) (hheight : m.height ≤ UInt32.size) {col row : Nat}
    (hcol : col < m.width) (hrow : row < m.height) {p : Point K}
    (hp : Grid.Covers m.width m.height col row p) :
    m.sample (m.matrix.apply p) = m.get col row := by
  rw [sample_of_inverse? h, Transform.inverse_apply h,
    Grid.cell?_of_covers hwidth hheight hcol hrow hp]
  rfl

theorem sample_center {m : Mask K} {i : Transform K} (h : m.matrix.inverse? = some i)
    (hwidth : m.width ≤ UInt32.size) (hheight : m.height ≤ UInt32.size) {col row : Nat}
    (hcol : col < m.width) (hrow : row < m.height) :
    m.sample (m.pixelCenter col row) = m.get col row :=
  sample_of_covers h hwidth hheight hcol hrow (Grid.covers_center hcol hrow)

theorem sample_outside {m : Mask K} {i : Transform K} (h : m.matrix.inverse? = some i)
    {p : Point K} (hp : ¬ (0 ≤ (i.apply p).x ∧ (i.apply p).x < 1 ∧
      0 ≤ (i.apply p).y ∧ (i.apply p).y < 1)) : m.sample p = 0 := by
  rw [sample_of_inverse? h, Grid.cell?, if_neg hp]
  rfl

theorem sample_of_no_inverse {m : Mask K} (h : m.matrix.inverse? = none) (p : Point K) :
    m.sample p = 0 := by
  unfold sample
  rw [h]

/-- A mask that can be placed at all gives the byte of a pixel at the pixel's centre, as at all
other points that it is placed over, and nothing at the points of the page that come from outside
of the half-open unit square. -/
theorem sample_pixels {m : Mask K} {i : Transform K} (h : m.matrix.inverse? = some i)
    (hwidth : m.width ≤ UInt32.size) (hheight : m.height ≤ UInt32.size) :
    (∀ col < m.width, ∀ row < m.height,
      m.sample (m.pixelCenter col row) = m.get col row ∧
      ∀ p, Grid.Covers m.width m.height col row p →
        m.sample (m.matrix.apply p) = m.get col row) ∧
    ∀ p, ¬ (0 ≤ (i.apply p).x ∧ (i.apply p).x < 1 ∧ 0 ≤ (i.apply p).y ∧ (i.apply p).y < 1) →
      m.sample p = 0 := by
  refine ⟨?_, ?_⟩
  · intro col hcol row hrow
    exact ⟨sample_center h hwidth hheight hcol hrow,
      fun p hp => sample_of_covers h hwidth hheight hcol hrow hp⟩
  · intro p hp
    exact sample_outside h hp

def mirrored : Mask ℚ where
  kind := .alpha
  width := 3
  height := 2
  alpha := #[10, 20, 30, 40, 50, 60]
  bbox := ⟨0, 0, 1, 1⟩
  matrix := ⟨-6, 2, 1, 4, 10, 1⟩

/-- The last pixel of the upper row, its corner below, which belongs to the pixel below, and a point
beside the grid. -/
theorem sample_pixels_mirrored :
    mirrored.matrix.inverse? = some ⟨-2/13, 1/13, 1/26, 3/13, 3/2, -1⟩ ∧
    mirrored.sample (mirrored.pixelCenter 2 0) = 30 ∧
    mirrored.sample (mirrored.matrix.apply ⟨2/3, 1/2⟩) = 60 ∧
    mirrored.sample ⟨0, 0⟩ = 0 := by
  have hinverse : mirrored.matrix.inverse? = some ⟨-2/13, 1/13, 1/26, 3/13, 3/2, -1⟩ := by
    decide +kernel
  obtain ⟨hpixels, houtside⟩ := sample_pixels hinverse (by decide) (by decide)
  have hcorner : Grid.Covers mirrored.width mirrored.height 2 1 (⟨2/3, 1/2⟩ : Point ℚ) := by
    constructor <;> norm_num [mirrored]
  refine ⟨hinverse, ?_, ?_, ?_⟩
  · exact (hpixels 2 (by decide) 0 (by decide)).1
  · exact (hpixels 2 (by decide) 1 (by decide)).2 _ hcorner
  · exact houtside ⟨0, 0⟩ (by decide +kernel)

end Mask
end ContentStream
