import Mathlib
import ContentStream.Proofs.MaskedElements
import ContentStream.Proofs.MaskSampling
import ContentStream.Proofs.NestedClips
import ContentStream.Proofs.OperandScope
import ContentStream.Proofs.PathBounds
import ContentStream.Proofs.Transforms

set_option autoImplicit false

namespace ContentStream
open Scalar
variable {K : Type} [ExactField K]

/-! ## Rectangles under transforms -/

namespace Rect

theorem IsWithin.extend {r s : Rect K} (h : r.IsWithin s) {p : Point K}
    (hp : s.admits p = true) : (r.extend p).IsWithin s := by
  obtain ⟨⟨hleft, hright⟩, hbottom, htop⟩ := admits_iff.1 hp
  constructor <;> simp only [Rect.extend, Scalar.min_eq, Scalar.max_eq]
  · exact le_min h.left hleft
  · exact le_min h.bottom hbottom
  · exact max_le h.right hright
  · exact max_le h.top htop

theorem foldl_extend_isWithin {r s : Rect K} {ps : List (Point K)} (h : r.IsWithin s)
    (hps : ∀ p ∈ ps, s.admits p = true) : (ps.foldl Rect.extend r).IsWithin s := by
  induction ps generalizing r with
  | nil => exact h
  | cons p ps ih =>
    exact ih (h.extend (hps p List.mem_cons_self)) fun q hq => hps q (List.mem_cons_of_mem _ hq)

theorem Encloses.of_isWithin {r s : Rect K} {p : Point K} (h : r.Encloses p)
    (hs : r.IsWithin s) : s.Encloses p where
  left := hs.left.trans_lt h.left
  right := h.right.trans_le hs.right
  bottom := hs.bottom.trans_lt h.bottom
  top := h.top.trans_le hs.top

theorem bounding_isWithin {s : Rect K} {p : Point K} {ps : List (Point K)}
    (hpage : (unbounded : Rect K).admits p = true) (hps : ∀ q ∈ p :: ps, s.admits q = true) :
    (bounding (p :: ps)).IsWithin s := by
  obtain ⟨⟨hleft, hright⟩, hbottom, htop⟩ := admits_iff.1 hpage
  obtain ⟨⟨hleft', hright'⟩, hbottom', htop'⟩ := admits_iff.1 (hps p List.mem_cons_self)
  refine foldl_extend_isWithin ⟨?_, ?_, ?_, ?_⟩ hps
  · exact hleft'.trans hright
  · exact hbottom'.trans htop
  · exact hleft.trans hright'
  · exact hbottom.trans htop'

theorem encloses_between {r : Rect K} {p q : Point K} (hp : r.admits p = true)
    (hq : r.admits q = true) {x y : K} (hx : Between p.x q.x x) (hy : Between p.y q.y y) :
    r.Encloses ⟨x, y⟩ := by
  obtain ⟨⟨hpleft, hpright⟩, hpbottom, hptop⟩ := admits_iff.1 hp
  obtain ⟨⟨hqleft, hqright⟩, hqbottom, hqtop⟩ := admits_iff.1 hq
  have hx' : r.x0 < x ∧ x < r.x1 := by
    rcases hx with ⟨h, h'⟩ | ⟨h, h'⟩ <;> constructor <;> linarith
  have hy' : r.y0 < y ∧ y < r.y1 := by
    rcases hy with ⟨h, h'⟩ | ⟨h, h'⟩ <;> constructor <;> linarith
  exact ⟨hx'.1, hx'.2, hy'.1, hy'.2⟩

theorem admits_normalize_iff {r : Rect K} {p : Point K} : r.normalize.admits p = true ↔
    (min r.x0 r.x1 ≤ p.x ∧ p.x ≤ max r.x0 r.x1) ∧
      min r.y0 r.y1 ≤ p.y ∧ p.y ≤ max r.y0 r.y1 := by
  rw [admits_iff, normalize, Scalar.min_eq, Scalar.min_eq, Scalar.max_eq, Scalar.max_eq]

def around (p : Point K) (radius : K) : Rect K :=
  ⟨p.x - radius, p.y - radius, p.x + radius, p.y + radius⟩

theorem encloses_around (p : Point K) {radius : K} (h : 0 < radius) :
    (around p radius).Encloses p := by
  constructor <;> simp only [around] <;> linarith

theorem Encloses.exists_around {r : Rect K} {p : Point K} (h : r.Encloses p) :
    ∃ radius, 0 < radius ∧ (around p radius).IsWithin r := by
  obtain ⟨radius, hpos, ⟨hleft, hright⟩, hbottom, htop⟩ : ∃ radius, 0 < radius ∧
      (radius ≤ p.x - r.x0 ∧ radius ≤ r.x1 - p.x) ∧ radius ≤ p.y - r.y0 ∧ radius ≤ r.y1 - p.y := by
    refine ⟨min (min (p.x - r.x0) (r.x1 - p.x)) (min (p.y - r.y0) (r.y1 - p.y)), ?_, ?_⟩
    · simp only [lt_min_iff, sub_pos]
      exact ⟨⟨h.left, h.right⟩, h.bottom, h.top⟩
    · simp only [← le_min_iff]
      exact le_rfl
  refine ⟨radius, hpos, ?_⟩
  constructor <;> simp only [around] <;> linarith

theorem isWithin_of_admits {r s : Rect K} (h : s.admits ⟨r.x0, r.y0⟩ = true)
    (h' : s.admits ⟨r.x1, r.y1⟩ = true) : r.IsWithin s :=
  ⟨(admits_iff.1 h).1.1, (admits_iff.1 h).2.1, (admits_iff.1 h').1.2, (admits_iff.1 h').2.2⟩

theorem encloses_intersect (r s : Rect K) (p : Point K) :
    (r.intersect s).Encloses p ↔ r.Encloses p ∧ s.Encloses p := by
  simp only [intersect, Scalar.max_eq, Scalar.min_eq]
  constructor
  · rintro ⟨hleft, hright, hbottom, htop⟩
    rw [max_lt_iff] at hleft hbottom
    rw [lt_min_iff] at hright htop
    exact ⟨⟨hleft.1, hright.1, hbottom.1, htop.1⟩, ⟨hleft.2, hright.2, hbottom.2, htop.2⟩⟩
  · rintro ⟨hr, hs⟩
    exact ⟨max_lt hr.left hs.left, lt_min hr.right hs.right, max_lt hr.bottom hs.bottom,
      lt_min hr.top hs.top⟩

theorem intersect_comm (r s : Rect K) : r.intersect s = s.intersect r := by
  simp only [intersect, Scalar.max_eq, Scalar.min_eq, max_comm, min_comm]

theorem intersect_of_isWithin {r s : Rect K} (h : r.IsWithin s) : r.intersect s = r := by
  simp only [intersect, Scalar.max_eq, Scalar.min_eq, max_eq_left h.left, max_eq_left h.bottom,
    min_eq_left h.right, min_eq_left h.top]

end Rect

namespace Transform

/-- Each edge of a rectangle is no longer than a point or is taken to a line that is parallel to an
axis. -/
def KeepsEdges (m : Transform K) (r : Rect K) : Prop :=
  (r.x0 = r.x1 ∨ m.a = 0 ∨ m.b = 0) ∧ (r.y0 = r.y1 ∨ m.c = 0 ∨ m.d = 0)

end Transform

theorem exists_beyond (lo hi : K) {shift : K} (h : shift ≠ 0) :
    ∃ t, (t = lo ∨ t = hi) ∧ ¬ (min lo hi ≤ t + shift ∧ t + shift ≤ max lo hi) := by
  rcases lt_or_gt_of_ne h with hdown | hup
  · exact ⟨min lo hi, min_choice lo hi, fun hmem => by linarith [hmem.1]⟩
  · exact ⟨max lo hi, max_choice lo hi, fun hmem => by linarith [hmem.2]⟩

theorem between_third {a b : K} (h : a ≠ b) :
    Between a b ((2 * a + b) / 3) ∧ Between a b ((a + 2 * b) / 3) := by
  rcases lt_or_gt_of_ne h with h | h
  · exact ⟨.inl ⟨by linarith, by linarith⟩, .inl ⟨by linarith, by linarith⟩⟩
  · exact ⟨.inr ⟨by linarith, by linarith⟩, .inr ⟨by linarith, by linarith⟩⟩

section Images
variable {m i : Transform K} {bbox : Rect K}

theorem admits_corner {c : Point K} (hc : c ∈ bbox.corners) :
    (m.applyRect bbox).admits (m.apply c) = true :=
  Rect.bounding_admits (List.mem_map_of_mem hc)

def edgePoint (m : Transform K) (p q : Point K) : Point K :=
  ⟨(2 * (m.apply p).x + (m.apply q).x) / 3, ((m.apply p).y + 2 * (m.apply q).y) / 3⟩

theorem inverse_edgePoint (hm : m.inverse? = some i) (p q : Point K) :
    i.apply (edgePoint m p q) =
      ⟨p.x + (q.x - p.x) / 3 -
          m.c * (m.b * (q.x - p.x) + m.d * (q.y - p.y)) / (3 * m.determinant),
        p.y + (q.y - p.y) / 3 +
          m.a * (m.b * (q.x - p.x) + m.d * (q.y - p.y)) / (3 * m.determinant)⟩ := by
  have hne := Transform.determinant_ne_zero hm
  have hdet : m.determinant = m.a * m.d - m.b * m.c := rfl
  rw [Transform.inverse?_eq hm]
  simp only [edgePoint, Transform.apply, Point.mk.injEq]
  generalize m.determinant = D at hne hdet
  constructor
  · field_simp
    rw [hdet]
    ring
  · field_simp
    rw [hdet]
    ring

theorem encloses_edgePoint {p q : Point K} (hp : p ∈ bbox.corners) (hq : q ∈ bbox.corners)
    (hx : (m.apply p).x ≠ (m.apply q).x) (hy : (m.apply p).y ≠ (m.apply q).y) :
    (m.applyRect bbox).Encloses (edgePoint m p q) :=
  Rect.encloses_between (admits_corner hp) (admits_corner hq) (between_third hx).1
    (between_third hy).2

/-- Under any other transform the bounding box has more in it than the image of the bounds: close to
an edge that is not parallel to an axis, there are points on the outer side of it. -/
theorem exists_outside (hm : m.inverse? = some i) (hskew : ¬ m.KeepsEdges bbox) :
    ∃ p, (m.applyRect bbox).Encloses p ∧ ¬ bbox.normalize.admits (i.apply p) = true := by
  have hdet : 3 * m.determinant ≠ 0 :=
    mul_ne_zero three_ne_zero (Transform.determinant_ne_zero hm)
  simp only [Transform.KeepsEdges, not_and_or, not_or] at hskew
  rcases hskew with ⟨hwidth, ha, hb⟩ | ⟨hheight, hc, hd⟩
  · have hshift : m.a * (m.b * (bbox.x1 - bbox.x0)) / (3 * m.determinant) ≠ 0 :=
      div_ne_zero (mul_ne_zero ha (mul_ne_zero hb (sub_ne_zero.2 (Ne.symm hwidth)))) hdet
    obtain ⟨y, hy, hbeyond⟩ := exists_beyond bbox.y0 bbox.y1 hshift
    refine ⟨edgePoint m ⟨bbox.x0, y⟩ ⟨bbox.x1, y⟩, encloses_edgePoint ?_ ?_ ?_ ?_, fun h => ?_⟩
    · rcases hy with rfl | rfl <;> simp [Rect.corners]
    · rcases hy with rfl | rfl <;> simp [Rect.corners]
    · simpa [Transform.apply, ha] using hwidth
    · simpa [Transform.apply, hb] using hwidth
    · rw [inverse_edgePoint hm, Rect.admits_normalize_iff] at h
      simp only [sub_self, zero_div, mul_zero, add_zero] at h
      exact hbeyond h.2
  · have hshift : -(m.c * (m.d * (bbox.y1 - bbox.y0)) / (3 * m.determinant)) ≠ 0 :=
      neg_ne_zero.2
        (div_ne_zero (mul_ne_zero hc (mul_ne_zero hd (sub_ne_zero.2 (Ne.symm hheight)))) hdet)
    obtain ⟨x, hx, hbeyond⟩ := exists_beyond bbox.x0 bbox.x1 hshift
    refine ⟨edgePoint m ⟨x, bbox.y0⟩ ⟨x, bbox.y1⟩, encloses_edgePoint ?_ ?_ ?_ ?_, fun h => ?_⟩
    · rcases hx with rfl | rfl <;> simp [Rect.corners]
    · rcases hx with rfl | rfl <;> simp [Rect.corners]
    · simpa [Transform.apply, hc] using hheight
    · simpa [Transform.apply, hd] using hheight
    · rw [inverse_edgePoint hm, Rect.admits_normalize_iff] at h
      simp only [sub_self, zero_div, mul_zero, zero_add, add_zero, sub_eq_add_neg] at h
      simp only [← sub_eq_add_neg] at h hbeyond
      exact hbeyond h.1

theorem mem_of_scaled {s k u v t : K} (h : min (s * u + k) (s * v + k) < s * t + k)
    (h' : s * t + k < max (s * u + k) (s * v + k)) : min u v ≤ t ∧ t ≤ max u v := by
  simp only [min_lt_iff, lt_max_iff, add_lt_add_iff_right] at h h'
  simp only [min_le_iff, le_max_iff]
  rcases lt_trichotomy s 0 with hneg | rfl | hpos
  · simp only [mul_lt_mul_left_of_neg hneg] at h h'
    exact ⟨h'.imp le_of_lt le_of_lt, h.imp le_of_lt le_of_lt⟩
  · simp at h
  · simp only [mul_lt_mul_iff_right₀ hpos] at h h'
    exact ⟨h.imp le_of_lt le_of_lt, h'.imp le_of_lt le_of_lt⟩

theorem applyRect_isWithin
    (hpage : ∀ c ∈ bbox.corners, (Rect.unbounded : Rect K).admits (m.apply c) = true) {s : Rect K}
    (hs : ∀ c ∈ bbox.corners, s.admits (m.apply c) = true) : (m.applyRect bbox).IsWithin s := by
  have hmapped : ∀ c ∈ bbox.corners.map m.apply, s.admits c = true := List.forall_mem_map.2 hs
  exact Rect.bounding_isWithin (hpage _ List.mem_cons_self) hmapped

/-- The images of the corners do not line up along an axis if there is a point between them. -/
theorem not_aligned_of_encloses
    (hpage : ∀ c ∈ bbox.corners, (Rect.unbounded : Rect K).admits (m.apply c) = true) {p : Point K}
    (hp : (m.applyRect bbox).Encloses p) (k : K) :
    ¬ (∀ c ∈ bbox.corners, (m.apply c).x = k) ∧ ¬ ∀ c ∈ bbox.corners, (m.apply c).y = k := by
  constructor
  · intro hx
    have hline : ∀ c ∈ bbox.corners, (⟨k, (m.applyRect bbox).y0, k, (m.applyRect bbox).y1⟩ :
        Rect K).admits (m.apply c) = true := fun c hc =>
      Rect.admits_iff.2 ⟨⟨(hx c hc).ge, (hx c hc).le⟩, (Rect.admits_iff.1 (admits_corner hc)).2⟩
    have hp' := hp.of_isWithin (applyRect_isWithin hpage hline)
    exact lt_irrefl _ (hp'.left.trans hp'.right)
  · intro hy
    have hline : ∀ c ∈ bbox.corners, (⟨(m.applyRect bbox).x0, k, (m.applyRect bbox).x1, k⟩ :
        Rect K).admits (m.apply c) = true := fun c hc =>
      Rect.admits_iff.2 ⟨(Rect.admits_iff.1 (admits_corner hc)).1, (hy c hc).ge, (hy c hc).le⟩
    have hp' := hp.of_isWithin (applyRect_isWithin hpage hline)
    exact lt_irrefl _ (hp'.bottom.trans hp'.top)

/-- Where the edges stay parallel, the bounding box is the image of the bounds, or it has no
interior. -/
theorem admits_of_keepsEdges (hm : m.inverse? = some i) (hkeeps : m.KeepsEdges bbox)
    (hpage : ∀ c ∈ bbox.corners, (Rect.unbounded : Rect K).admits (m.apply c) = true) {p : Point K}
    (hp : (m.applyRect bbox).Encloses p) : bbox.normalize.admits (i.apply p) = true := by
  have hback : m.apply (i.apply p) = p := Transform.apply_inverse hm p
  generalize i.apply p = q at hback ⊢
  obtain rfl := hback
  have hwithin : ∀ s : Rect K, (∀ c ∈ bbox.corners, s.admits (m.apply c) = true) →
      s.Encloses (m.apply q) := fun s hs => hp.of_isWithin (applyRect_isWithin hpage hs)
  have hcolumn := (not_aligned_of_encloses hpage hp (m.apply ⟨bbox.x0, bbox.y0⟩).x).1
  have hline := (not_aligned_of_encloses hpage hp (m.apply ⟨bbox.x0, bbox.y0⟩).y).2
  -- Two edges along one line of the page leave no room, and nor does an edge of no length.
  rcases hkeeps with ⟨hx | ha | hb, hy | hc | hd⟩
  · exact absurd (by simp [Rect.corners, Transform.apply, hx, hy]) hcolumn
  · exact absurd (by simp [Rect.corners, Transform.apply, hx, hc]) hcolumn
  · exact absurd (by simp [Rect.corners, Transform.apply, hx, hd]) hline
  · exact absurd (by simp [Rect.corners, Transform.apply, ha, hy]) hcolumn
  · exact absurd (by simp [Rect.corners, Transform.apply, ha, hc]) hcolumn
  · have h := hwithin ⟨min (m.c * bbox.y0 + m.e) (m.c * bbox.y1 + m.e),
      min (m.b * bbox.x0 + m.f) (m.b * bbox.x1 + m.f),
      max (m.c * bbox.y0 + m.e) (m.c * bbox.y1 + m.e),
      max (m.b * bbox.x0 + m.f) (m.b * bbox.x1 + m.f)⟩ (by
        simp [Rect.corners, Transform.apply, ha, hd, Rect.admits_iff])
    simp only [Transform.apply, ha, hd, zero_mul, add_zero, zero_add] at h
    exact Rect.admits_normalize_iff.2 ⟨mem_of_scaled h.bottom h.top, mem_of_scaled h.left h.right⟩
  · exact absurd (by simp [Rect.corners, Transform.apply, hb, hy]) hline
  · have h := hwithin ⟨min (m.a * bbox.x0 + m.e) (m.a * bbox.x1 + m.e),
      min (m.d * bbox.y0 + m.f) (m.d * bbox.y1 + m.f),
      max (m.a * bbox.x0 + m.e) (m.a * bbox.x1 + m.e),
      max (m.d * bbox.y0 + m.f) (m.d * bbox.y1 + m.f)⟩ (by
        simp [Rect.corners, Transform.apply, hb, hc, Rect.admits_iff])
    simp only [Transform.apply, hb, hc, zero_mul, add_zero, zero_add] at h
    exact Rect.admits_normalize_iff.2 ⟨mem_of_scaled h.left h.right, mem_of_scaled h.bottom h.top⟩
  · exact absurd (by simp [Rect.corners, Transform.apply, hb, hd]) hline

end Images

/-! ## Rasters of shadings -/

def RasterImage.centerAt (r : RasterImage K) (col row : Nat) : Point K :=
  r.state.ctm.apply (Grid.center r.width r.height col row)

/-- No pixel is painted whose centre, taken back to the space of the shading, is out of bounds. -/
def RasterImage.PaintsWithin (r : RasterImage K) (toShading : Transform K) (bbox : Rect K) : Prop :=
  ∀ col < r.width, ∀ row < r.height, (r.pixel col row).alpha ≠ 0 →
    bbox.normalize.admits (toShading.apply (r.centerAt col row)) = true

namespace Shading
variable {d : Shading K} {m i : Transform K} {region : Rect K}
  {path : Option (List (Subpath K) × FillRule)} {budget : Nat} {state : GraphicsState K}
  {r : RasterImage K}

theorem alpha_pixel (d : Shading K) (toShading : Transform K) {coverage : K} (h : 0 ≤ coverage)
    (p : Point K) : (Rgba.ofBytes (d.pixel toShading coverage p)).alpha =
      if (d.kind.parameter? d.extend (toShading.apply p)).isSome then toByte coverage else 0 := by
  unfold pixel
  rcases h.eq_or_lt with rfl | hpos
  · rw [if_neg (lt_irrefl 0)]
    simp [Rgba.ofBytes, Rgba.toBytes, Rgba.transparent]
  · rw [if_pos hpos]
    cases d.kind.parameter? d.extend (toShading.apply p) <;> rfl

theorem isSome_parameter?_extended (q : Point K) :
    ((ShadingKind.axial 0 0 1 0).parameter? (true, true) q).isSome = true := by
  have hspacing : ¬ (1 : K) ≤ unitSpacing := by
    unfold unitSpacing
    norm_num
  unfold ShadingKind.parameter? ShadingKind.rawParameter?
  simp only [sub_zero, mul_one, mul_zero, add_zero, hspacing, if_false, Option.bind_some, if_true]
  split_ifs <;> rfl

theorem alpha_rasterize? (hm : m.inverse? = some i)
    (h : d.rasterize? m region path budget state = some r) {col row : Nat}
    (hcol : col < r.width) (hrow : row < r.height) :
    (r.pixel col row).alpha =
        (if insidePath path (r.centerAt col row) ∧
            (d.kind.parameter? d.extend (i.apply (r.centerAt col row))).isSome then
          toByte (state.clipCoverage (r.centerAt col row)) else 0) ∧
      region.Encloses (r.centerAt col row) := by
  obtain ⟨-, hstate, toShading, hdrawable, hinverse, hholds⟩ := rasterize?_spec h
  obtain rfl := Option.some.inj (hm.symm.trans hinverse)
  obtain ⟨hx, hy⟩ := Rect.isDrawable_iff.1 hdrawable
  have hcenter : r.centerAt col row = region.placement.apply
      (Grid.center r.width r.height col row) := by
    rw [RasterImage.centerAt, hstate]
  refine ⟨?_, hcenter ▸ Grid.encloses_center hx hy hcol hrow⟩
  have hpixel : r.pixel col row = .ofBytes (d.pixel i
      (if insidePath path (r.centerAt col row) then state.clipCoverage (r.centerAt col row) else 0)
      (r.centerAt col row)) := hholds.pixel col hcol row hrow
  rw [hpixel]
  by_cases hinside : insidePath path (r.centerAt col row) = true
  · rw [if_pos hinside, alpha_pixel _ _ (state.inUnit_clipCoverage _).1]
    simp only [hinside, true_and]
  · rw [if_neg hinside, alpha_pixel _ _ le_rfl, toByte_zero, ite_self,
      if_neg fun hboth => hinside hboth.1]

theorem exists_rasterize? (d : Shading K) (hm : m.inverse? = some i)
    (path : Option (List (Subpath K) × FillRule)) (state : GraphicsState K)
    (hregion : region.isDrawable = true) (hbudget : 0 < budget) :
    ∃ r, d.rasterize? m region path budget state = some r := by
  obtain ⟨hx, hy⟩ := Rect.isDrawable_iff.1 hregion
  obtain ⟨⟨width, height⟩, hsize⟩ := Option.isSome_iff_exists.1
    (Grid.size?_isSome (sub_pos.2 hx) (sub_pos.2 hy) hbudget)
  unfold rasterize?
  rw [if_pos hregion, hsize, hm]
  exact ⟨_, rfl⟩

theorem exists_raster_around (d : Shading K) (hm : m.inverse? = some i)
    (path : Option (List (Subpath K) × FillRule)) (state : GraphicsState K) {p : Point K}
    {radius : K} (hradius : 0 < radius) (hclip : state.clipBBox = .around p radius)
    (hmask : state.clipMask = none) (hinside : insidePath path p = true)
    (hcolor : (d.kind.parameter? d.extend (i.apply p)).isSome = true) :
    ∃ r, d.rasterize? m (.around p radius) path 1 state = some r ∧
      0 < r.width ∧ 0 < r.height ∧ r.centerAt 0 0 = p ∧ (r.pixel 0 0).alpha = 255 := by
  have henclosed := Rect.encloses_around p hradius
  have hdrawable : (Rect.around p radius).isDrawable = true :=
    Rect.isDrawable_iff.2 ⟨henclosed.left.trans henclosed.right,
      henclosed.bottom.trans henclosed.top⟩
  obtain ⟨r, hr⟩ := d.exists_rasterize? hm path state hdrawable one_pos
  obtain ⟨hfits, hstate, -⟩ := rasterize?_spec hr
  have hwidth : r.width = 1 := by
    have := hfits.width_pos
    have := hfits.longer
    omega
  have hheight : r.height = 1 := by
    have := hfits.height_pos
    have := hfits.longer
    omega
  have hcenter : r.centerAt 0 0 = p := by
    rw [RasterImage.centerAt, hstate, hwidth, hheight]
    obtain ⟨x, y⟩ := p
    simp only [Rect.placement, Rect.around, Transform.apply, Grid.center, Point.mk.injEq]
    constructor <;> norm_num <;> ring
  have halpha := (alpha_rasterize? hm hr hfits.width_pos hfits.height_pos).1
  refine ⟨r, hr, hfits.width_pos, hfits.height_pos, hcenter, ?_⟩
  have hcoverage : state.clipCoverage p = ofByte 255 := by
    rw [GraphicsState.clipCoverage_of_admits (hclip ▸ henclosed.admits), hmask]
    rfl
  rwa [hcenter, if_pos ⟨hinside, hcolor⟩, hcoverage, toByte_ofByte] at halpha

end Shading

/-! ## The two operators -/

namespace Interpreter
variable {options : Options K} {s : Interpreter K} {d : Shading K} {r : RasterImage K}
  {m i : Transform K} {bbox : Rect K}

structure PaintsShading (options : Options K) (s : Interpreter K) (d : Shading K)
    (r : RasterImage K) : Prop where
  entry : ∃ name, (Operand.popName s.operands).1 = some name ∧ s.resources.shading? name = some d
  elements : (execute options [.operator "sh"] s).state.elements = s.elements.push (.raster r)

structure FillsWithShading (s : Interpreter K) (toPage : Transform K) (d : Shading K) : Prop where
  selected : s.state.fillsWithPattern = true
  entry : ∃ name matrix, s.state.fillPattern = some name ∧
    s.resources.pattern? name = some (.shading matrix d) ∧ toPage = matrix.compose s.baseCtm

theorem elements_paintShading (options : Options K) (s : Interpreter K) {name : String}
    (hentry : s.resources.shading? name = some d) (hbbox : d.bbox = some bbox) :
    (s.paintShading options name).elements =
      ((d.rasterize? s.state.ctm (s.state.clipBBox.intersect (s.state.ctm.applyRect bbox)) none
        options.shadingBudget s.state).map Element.raster).elim s.elements s.elements.push := by
  unfold paintShading
  rw [hentry]
  dsimp only
  rw [hbbox]
  dsimp only
  cases d.rasterize? s.state.ctm (s.state.clipBBox.intersect (s.state.ctm.applyRect bbox)) none
    options.shadingBudget s.state <;> rfl

theorem elim_push_eq_push_iff {α : Type} {o : Option α} {xs : Array α} {x : α} :
    o.elim xs xs.push = xs.push x ↔ o = some x := by
  cases o with
  | none =>
    simp only [Option.elim_none, reduceCtorEq, iff_false]
    intro h
    have hsize := congrArg Array.size h
    simp at hsize
  | some y => simp [Array.push_eq_push]

theorem paintsShading_iff {name : String} (hname : (Operand.popName s.operands).1 = some name)
    (hentry : s.resources.shading? name = some d) (hbbox : d.bbox = some bbox) :
    PaintsShading options s d r ↔ d.rasterize? s.state.ctm
      (s.state.clipBBox.intersect (s.state.ctm.applyRect bbox)) none options.shadingBudget s.state =
        some r := by
  have hexecute : execute options [.operator "sh"] s =
      .ok (s.cleared.paintShading options name) := by
    rw [execute_apply .paintShading rfl (by decide) (by decide)]
    change Outcome.ok ((Operand.popName s.operands).1.elim _ _) = _
    rw [hname]
    rfl
  have helements : (execute options [.operator "sh"] s).state.elements =
      s.elements.push (.raster r) ↔ d.rasterize? s.state.ctm
        (s.state.clipBBox.intersect (s.state.ctm.applyRect bbox)) none options.shadingBudget
          s.state = some r := by
    rw [hexecute]
    change (s.cleared.paintShading options name).elements = s.cleared.elements.push _ ↔ _
    rw [elements_paintShading options s.cleared hentry hbbox, elim_push_eq_push_iff,
      Option.map_eq_some_iff]
    simp only [Element.raster.injEq, exists_eq_right]
    rfl
  exact ⟨fun h => helements.1 h.elements, fun hr => ⟨⟨name, hname, hentry⟩, helements.2 hr⟩⟩

theorem rasterizePattern?_eq (h : s.FillsWithShading m d) (segments : List (Segment K))
    (rule : FillRule) : s.rasterizePattern? options segments rule s.state =
      (d.rasterize? m ((pathBounds segments s.state.ctm).intersect s.state.clipBBox)
        (some (flatten segments s.state.ctm, rule)) options.shadingBudget s.state).map fun r =>
          { r with state := r.state.clearFillPattern } := by
  obtain ⟨name, matrix, hname, hentry, rfl⟩ := h.entry
  have hpattern : s.state.fillPattern.bind s.resources.pattern? = some (.shading matrix d) := by
    rw [hname]
    exact hentry
  unfold rasterizePattern?
  rw [hpattern]

theorem drawPath_of_pattern {segments : List (Segment K)} {rule : FillRule}
    (hselected : s.state.fillsWithPattern = true)
    (h : s.rasterizePattern? options segments rule s.state = some r) :
    s.drawPath options segments .fill rule = s.emit (.raster r) := by
  unfold drawPath
  simp only [Paint.fills, hselected, Bool.and_self, if_true, h]
  exact if_neg (by decide)

def squareAround (p : Point K) : Segment K := .rect (p.x - 1) (p.y - 1) (1 + 1) (1 + 1)

theorem squareAround_corner (p : Point K) :
    p.x - 1 + (1 + 1) = p.x + 1 ∧ p.y - 1 + (1 + 1) = p.y + 1 := by
  constructor <;> ring

theorem around_isWithin_pathBounds (p : Point K) :
    (Rect.around p 1).IsWithin (pathBounds [squareAround p] .identity) := by
  have hpoint : ∀ q ∈ (squareAround p).points,
      (pathBounds [squareAround p] .identity).admits q = true := by
    intro q hq
    rw [← apply_identity q]
    exact Rect.bounding_admits (List.mem_map_of_mem
      (List.mem_flatMap_of_mem (List.mem_singleton_self (squareAround p)) hq))
  refine Rect.isWithin_of_admits (hpoint _ ?_) (hpoint _ ?_)
  · simp [squareAround, Segment.points, Rect.around]
  · simp [squareAround, Segment.points, Rect.around, squareAround_corner p]

theorem insidePath_squareAround (p : Point K) :
    insidePath (some (flatten [squareAround p] .identity, .nonZero)) p = true := by
  refine fillContains_rect .nonZero ?_
  rw [(squareAround_corner p).1, (squareAround_corner p).2]
  constructor <;> simp [Rect.normalize, Scalar.min_eq, Scalar.max_eq]

theorem exists_fill (d : Shading K) (hm : m.inverse? = some i) (p : Point K)
    (hcolor : (d.kind.parameter? d.extend (i.apply p)).isSome = true) :
    ∃ (options : Options K) (s : Interpreter K) (r : RasterImage K), s.FillsWithShading m d ∧
      (execute options [.operator "f"] s).state.elements = s.elements.push (.raster r) ∧
      0 < r.width ∧ 0 < r.height ∧ r.centerAt 0 0 = p ∧ (r.pixel 0 0).alpha = 255 := by
  let options : Options K :=
    { Options.standard with shadingBudget := 1, pageBBox := some (.around p 1) }
  let page : Interpreter K :=
    ofPage { Resources.empty with patterns := [("P", .shading m d)] } options
  let s : Interpreter K := (page.modifyState fun g =>
    { g with fillColor := ⟨.pattern, []⟩, fillPattern := some "P" }).addSegment (squareAround p)
  have hfills : s.FillsWithShading m d :=
    ⟨rfl, "P", m, rfl, rfl, (Transform.compose_identity m).symm⟩
  let t : Interpreter K := { s.cleared with path := #[] }
  have hfills' : t.FillsWithShading m d := ⟨hfills.selected, hfills.entry⟩
  obtain ⟨r, hr, hwidth, hheight, hcenter, halpha⟩ :=
    d.exists_raster_around hm (some (flatten [squareAround p] .identity, .nonZero)) t.state one_pos
      rfl rfl (insidePath_squareAround p) hcolor
  have hregion : (pathBounds [squareAround p] t.state.ctm).intersect t.state.clipBBox =
      .around p 1 := by
    rw [Rect.intersect_comm]
    exact Rect.intersect_of_isWithin (around_isWithin_pathBounds p)
  have hpattern : t.rasterizePattern? options [squareAround p] .nonZero t.state =
      some { r with state := r.state.clearFillPattern } := by
    rw [rasterizePattern?_eq hfills', hregion]
    exact congrArg (Option.map _) hr
  refine ⟨options, s, { r with state := r.state.clearFillPattern }, hfills, ?_, hwidth, hheight,
    hcenter, halpha⟩
  rw [execute_apply .fill rfl (by decide) (by decide)]
  change (t.drawPath options [squareAround p] .fill .nonZero).elements = _
  rw [drawPath_of_pattern hfills'.selected hpattern]
  rfl

/-- Some shading with the bounds is painted outside of them if a longer edge is skewed. -/
theorem exists_paintsShading_outside (hm : m.inverse? = some i)
    (hskew : ¬ m.KeepsEdges bbox) :
    ∃ (options : Options K) (s : Interpreter K) (d : Shading K) (r : RasterImage K),
      d.bbox = some bbox ∧ s.state.ctm = m ∧ PaintsShading options s d r ∧
        ¬ r.PaintsWithin i bbox := by
  obtain ⟨p, hp, hout⟩ := exists_outside hm hskew
  obtain ⟨radius, hradius, hwithin⟩ := hp.exists_around
  let d : Shading K := ⟨.axial 0 0 1 0, .gray, .sampled 0 1 [], (0, 1), (true, true), some bbox⟩
  let options : Options K :=
    { Options.standard with
      initialCtm := m
      pageBBox := some (.around p radius)
      shadingBudget := 1 }
  let s : Interpreter K :=
    (ofPage { Resources.empty with shadings := [("S", d)] } options).pushOperand (.name "S")
  obtain ⟨r, hr, hwidth, hheight, hcenter, halpha⟩ :=
    d.exists_raster_around hm none s.state hradius rfl rfl rfl
      (Shading.isSome_parameter?_extended _)
  have hregion : s.state.clipBBox.intersect (s.state.ctm.applyRect bbox) = .around p radius :=
    Rect.intersect_of_isWithin hwithin
  refine ⟨options, s, d, r, rfl, rfl, ?_, fun hpaints => hout ?_⟩
  · have hname : (Operand.popName s.operands).1 = some "S" := rfl
    refine (paintsShading_iff hname rfl rfl).2 ?_
    rw [hregion]
    exact hr
  · rw [← hcenter]
    exact hpaints 0 hwidth 0 hheight (by rw [halpha]; decide)

/-- The pixels that `sh` paints lie under the clip and in the rectangle of the page that the corners
of the bounds span. They all lie in the bounds themselves exactly if the edges of the bounds are
parallel to those of the page. A fill paints as if the shading had no bounds, so that each point
with a colour is painted by some fill. -/
theorem shading_bounds (hm : m.inverse? = some i)
    (hpage : ∀ c ∈ bbox.corners, (Rect.unbounded : Rect K).admits (m.apply c) = true) :
    (∀ (options : Options K) (s : Interpreter K) (d : Shading K) (r : RasterImage K),
      d.bbox = some bbox → s.state.ctm = m → PaintsShading options s d r →
      ∀ col < r.width, ∀ row < r.height,
        (s.state.clipBBox.intersect (m.applyRect bbox)).Encloses (r.centerAt col row)) ∧
    ((∀ (options : Options K) (s : Interpreter K) (d : Shading K) (r : RasterImage K),
      d.bbox = some bbox → s.state.ctm = m → PaintsShading options s d r →
        r.PaintsWithin i bbox) ↔ m.KeepsEdges bbox) ∧
    (∀ (options : Options K) (s : Interpreter K) (d : Shading K) (segments : List (Segment K))
      (rule : FillRule) (r : RasterImage K), s.FillsWithShading m d →
      s.rasterizePattern? options segments rule s.state = some r →
      (r.PaintsWithin i bbox ↔ ∀ col < r.width, ∀ row < r.height,
        fillContains (flatten segments s.state.ctm) rule (r.centerAt col row) = true →
        (d.kind.parameter? d.extend (i.apply (r.centerAt col row))).isSome = true →
        toByte (s.state.clipCoverage (r.centerAt col row)) ≠ 0 →
        bbox.normalize.admits (i.apply (r.centerAt col row)) = true)) ∧
    ∀ (d : Shading K) (q : Point K), (d.kind.parameter? d.extend q).isSome = true →
      ∃ (options : Options K) (s : Interpreter K) (r : RasterImage K), s.FillsWithShading m d ∧
        (execute options [.operator "f"] s).state.elements = s.elements.push (.raster r) ∧
        ∃ col < r.width, ∃ row < r.height, r.centerAt col row = m.apply q ∧
          (r.pixel col row).alpha = 255 := by
  have hsh : ∀ (options : Options K) (s : Interpreter K) (d : Shading K) (r : RasterImage K),
      d.bbox = some bbox → s.state.ctm = m → PaintsShading options s d r →
      ∀ col < r.width, ∀ row < r.height,
        (s.state.clipBBox.intersect (m.applyRect bbox)).Encloses (r.centerAt col row) := by
    rintro options s d r hbbox rfl hpaints col hcol row hrow
    obtain ⟨name, hname, hentry⟩ := hpaints.entry
    have hr := (paintsShading_iff hname hentry hbbox).1 hpaints
    exact (Shading.alpha_rasterize? hm hr hcol hrow).2
  refine ⟨hsh, ⟨fun hall => ?_, fun hkeeps => ?_⟩, ?_, ?_⟩
  · by_contra hskew
    obtain ⟨options, s, d, r, hbbox, hctm, hpaints, hout⟩ := exists_paintsShading_outside hm hskew
    exact hout (hall options s d r hbbox hctm hpaints)
  · intro options s d r hbbox hctm hpaints col hcol row hrow _
    have hcenter := hsh options s d r hbbox hctm hpaints col hcol row hrow
    exact admits_of_keepsEdges hm hkeeps hpage ((Rect.encloses_intersect _ _ _).1 hcenter).2
  · intro options s d segments rule r hfills hraster
    rw [rasterizePattern?_eq hfills] at hraster
    obtain ⟨r, hr, rfl⟩ := Option.map_eq_some_iff.1 hraster
    refine forall₄_congr fun col hcol row hrow => ?_
    have halpha := (Shading.alpha_rasterize? hm hr hcol hrow).1
    change ((r.pixel col row).alpha ≠ 0 → _) ↔ _
    rw [halpha, ite_ne_right_iff, and_imp, and_imp]
    rfl
  · intro d q hcolor
    obtain ⟨options, s, r, hfills, helements, hwidth, hheight, hcenter, halpha⟩ :=
      exists_fill d hm (m.apply q) (by rwa [Transform.inverse_apply hm])
    exact ⟨options, s, r, hfills, helements, 0, hwidth, 0, hheight, hcenter, halpha⟩

def wash : Shading ℚ where
  kind := .axial 0 0 4 0
  colorSpace := .gray
  function := .exponential 0 1 [1] [1] 1
  domain := (0, 1)
  extend := (true, true)
  bbox := some ⟨0, 0, 2, 4⟩

def washed : Resources ℚ :=
  { Resources.empty with
    shadings := [("S", wash)]
    patterns := [("P", .shading .identity wash)] }

def coarseShadings : Options ℚ := { Options.standard with shadingBudget := 4 }

/-- Turned by a quarter, the bounds have the four by two units to the left of the origin, and these
are painted. -/
theorem shading_bounds_turned :
    let turn : Transform ℚ := ⟨0, 1, -1, 0, 0, 0⟩
    let options := { coarseShadings with initialCtm := turn }
    let s := (ofPage washed options).pushOperand (.name "S")
    let r : RasterImage ℚ :=
      ⟨.replicate 32 255, 4, 2, .rgb, { s.state with ctm := ⟨4, 0, 0, 2, -4, 0⟩ }⟩
    PaintsShading options s wash r ∧ r.PaintsWithin ⟨0, -1, 1, 0, 0, 0⟩ ⟨0, 0, 2, 4⟩ := by
  intro turn options s r
  have hpaints : PaintsShading options s wash r := ⟨⟨"S", rfl, rfl⟩, by decide +kernel⟩
  have hinverse : turn.inverse? = some ⟨0, -1, 1, 0, 0, 0⟩ := by decide +kernel
  have hpage : ∀ c ∈ (⟨0, 0, 2, 4⟩ : Rect ℚ).corners,
      (Rect.unbounded : Rect ℚ).admits (turn.apply c) = true := by
    decide +kernel
  obtain ⟨-, hexact, -⟩ := shading_bounds hinverse hpage
  have hkeeps : turn.KeepsEdges ⟨0, 0, 2, 4⟩ := ⟨.inr (.inl rfl), .inr (.inr rfl)⟩
  exact ⟨hpaints, hexact.2 hkeeps options s wash r rfl rfl hpaints⟩

/-- A fill of four by four units paints those to the right of the bounds too, and so does `sh` under
a transform that turns the axes by half a quarter. -/
theorem shading_bounds_exceeded :
    let bbox : Rect ℚ := ⟨0, 0, 2, 4⟩
    (∃ r, interpretContent washed coarseShadings (Utf8.encode "/Pattern cs /P scn 0 0 4 4 re f") =
        .ok [.raster r] ∧ 3 < r.width ∧ 3 < r.height ∧ (r.pixel 3 3).alpha = 255 ∧
      bbox.normalize.admits (r.centerAt 3 3) = false) ∧
    ∃ r, interpretContent washed coarseShadings (Utf8.encode "1 1 -1 1 0 0 cm /S sh") =
        .ok [.raster r] ∧ 3 < r.width ∧ 3 < r.height ∧ (r.pixel 3 3).alpha = 255 ∧
      bbox.normalize.admits ((⟨1/2, -1/2, 1/2, 1/2, 0, 0⟩ : Transform ℚ).apply (r.centerAt 3 3)) =
        false := by
  refine ⟨⟨⟨.replicate 64 255, 4, 4, .rgb, { GraphicsState.initial with
      ctm := ⟨4, 0, 0, 4, 0, 0⟩ }⟩, ?_⟩,
    ⟨.replicate 64 255, 4, 4, .rgb, { GraphicsState.initial with
      ctm := ⟨6, 0, 0, 6, -4, 0⟩ }⟩, ?_⟩
  · decide +kernel
  · decide +kernel

end Interpreter
end ContentStream
