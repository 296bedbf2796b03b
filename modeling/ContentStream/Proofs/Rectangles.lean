import Mathlib
import ContentStream.Path.Coverage
import ContentStream.Proofs.ExactArithmetic

set_option autoImplicit false

namespace ContentStream
variable {K : Type} [ExactField K]

structure Rect.Encloses (r : Rect K) (p : Point K) : Prop where
  left : r.x0 < p.x
  right : p.x < r.x1
  bottom : r.y0 < p.y
  top : p.y < r.y1

def Between (a b t : K) : Prop := a < t ∧ t < b ∨ b < t ∧ t < a

theorem between_of_min_max {a b t : K} (h : min a b < t) (h' : t < max a b) : Between a b t := by
  rcases le_total a b with hab | hab
  · rw [min_eq_left hab] at h
    rw [max_eq_right hab] at h'
    exact .inl ⟨h, h'⟩
  · rw [min_eq_right hab] at h
    rw [max_eq_left hab] at h'
    exact .inr ⟨h, h'⟩

theorem Rect.Encloses.between {x0 y0 x1 y1 : K} {p : Point K}
    (h : (Rect.normalize ⟨x0, y0, x1, y1⟩).Encloses p) :
    Between x0 x1 p.x ∧ Between y0 y1 p.y := by
  obtain ⟨hleft, hright, hbottom, htop⟩ := h
  simp only [Rect.normalize, Scalar.min_eq, Scalar.max_eq] at hleft hright hbottom htop
  exact ⟨between_of_min_max hleft hright, between_of_min_max hbottom htop⟩

namespace Grid

theorem middle_mem {i n : Nat} (h : i < n) :
    0 < ((i : K) + 0.5) / (n : K) ∧ ((i : K) + 0.5) / (n : K) < 1 := by
  have hn : (0 : K) < (n : K) := Nat.cast_pos.2 (Nat.zero_lt_of_lt h)
  have hi : (0 : K) ≤ (i : K) := Nat.cast_nonneg i
  have hle : (i : K) + 1 ≤ (n : K) := by exact_mod_cast h
  constructor
  · apply div_pos _ hn
    linarith
  · rw [div_lt_one hn]
    linarith

theorem encloses_center {r : Rect K} (hx : r.x0 < r.x1) (hy : r.y0 < r.y1)
    {width height col row : Nat} (hcol : col < width) (hrow : row < height) :
    r.Encloses (r.placement.apply (center width height col row)) := by
  obtain ⟨hu, hu'⟩ := middle_mem (K := K) hcol
  obtain ⟨hv, hv'⟩ := middle_mem (K := K) hrow
  have hw : 0 < r.x1 - r.x0 := sub_pos.2 hx
  have hh : 0 < r.y1 - r.y0 := sub_pos.2 hy
  constructor <;> simp only [Rect.placement, Transform.apply, center] <;> nlinarith

end Grid

section Edges
variable {p : Point K}

theorem crosses_level (a b y : K) : crosses p (⟨a, y⟩, ⟨b, y⟩) = false := by
  simp [crosses]

theorem windingStep_level (a b y : K) : windingStep p (⟨a, y⟩, ⟨b, y⟩) = 0 := by
  simp only [windingStep]
  split
  · rw [if_neg (not_lt.2 ‹_›)]
  · rfl

/-- The ray from a point crosses an upright edge at the point's height if the edge lies to the
right. -/
theorem crosses_upright {c a b : K} (h : Between a b p.y) :
    crosses p (⟨c, a⟩, ⟨c, b⟩) = decide (p.x < c) := by
  have hcut : (c - c) * (p.y - a) / (b - a) + c = c := by simp
  simp only [crosses, hcut]
  rcases h with ⟨ha, hb⟩ | ⟨hb, ha⟩
  · simp [hb, ha.not_gt]
  · simp [ha, hb.not_gt]

theorem windingStep_upright {c a b : K} (h : Between a b p.y) :
    windingStep p (⟨c, a⟩, ⟨c, b⟩) = if p.x < c then (if a < b then 1 else -1) else 0 := by
  have hside : side ⟨c, a⟩ ⟨c, b⟩ p = (c - p.x) * (b - a) := by
    simp only [side]
    ring
  simp only [windingStep, hside]
  rcases h with ⟨ha, hb⟩ | ⟨hb, ha⟩
  · have hab : 0 < b - a := sub_pos.2 (ha.trans hb)
    rw [if_pos ha.le, if_pos hb, if_pos (ha.trans hb)]
    simp only [mul_pos_iff_of_pos_right hab, sub_pos]
  · have hab : b - a < 0 := sub_neg.2 (hb.trans ha)
    rw [if_neg ha.not_ge, if_pos hb.le, if_neg (hb.trans ha).not_gt]
    simp only [mul_neg_iff, hab, hab.not_gt, and_true, and_false, or_false, sub_pos]

end Edges

theorem apply_identity (p : Point K) : Transform.identity.apply p = p := by
  simp [Transform.apply, Transform.identity]

theorem flatten_rect (x y w h : K) (m : Transform K) :
    flatten [.rect x y w h] m = [⟨(Segment.rect x y w h).points.map m.apply, true⟩] := rfl

theorem fillEdges_rect {x y w h : K} (hh : h ≠ 0) :
    fillEdges (flatten [.rect x y w h] .identity) =
      [(⟨x, y⟩, ⟨x + w, y⟩), (⟨x + w, y⟩, ⟨x + w, y + h⟩), (⟨x + w, y + h⟩, ⟨x, y + h⟩),
        (⟨x, y + h⟩, ⟨x, y⟩)] := by
  have hne : ((⟨x, y⟩ : Point K) == ⟨x, y + h⟩) = false := by
    change (x == x && y == y + h) = false
    simpa using hh
  simp [flatten_rect, fillEdges, Subpath.edges, Subpath.closingEdge, Segment.points,
    apply_identity, hne]

theorem fillContains_rect {x y w h : K} {p : Point K} (rule : FillRule)
    (hp : (Rect.normalize ⟨x, y, x + w, y + h⟩).Encloses p) :
    fillContains (flatten [.rect x y w h] .identity) rule p = true := by
  obtain ⟨hx, hy⟩ := hp.between
  have hy' : Between (y + h) y p.y := hy.symm
  have hh : h ≠ 0 := by
    rintro rfl
    rw [add_zero] at hy
    rcases hy with hy | hy <;> exact absurd (hy.1.trans hy.2) (lt_irrefl y)
  cases rule with
  | evenOdd =>
    simp only [fillContains, oddCrossings, fillEdges_rect hh, List.foldl_cons, List.foldl_nil,
      crosses_level, crosses_upright hy, crosses_upright hy']
    rcases hx with ⟨ha, hb⟩ | ⟨hb, ha⟩
    · simp [hb, ha.not_gt]
    · simp [ha, hb.not_gt]
  | nonZero =>
    simp only [fillContains, windingNumber, fillEdges_rect hh, List.foldl_cons, List.foldl_nil,
      windingStep_level, windingStep_upright hy, windingStep_upright hy']
    have hne : (if y < y + h then (1 : Int) else -1) ≠ 0 := by split <;> decide
    have hne' : (if y + h < y then (1 : Int) else -1) ≠ 0 := by split <;> decide
    rcases hx with ⟨ha, hb⟩ | ⟨hb, ha⟩
    · simpa [hb, ha.not_gt] using hne
    · simpa [ha, hb.not_gt] using hne'

end ContentStream
