import Mathlib
import ContentStream.Path.Coverage
import ContentStream.Proofs.RadialShadings

set_option autoImplicit false

/-!
# Stroke coverage

Seen from a line, a point lies some way beyond an end and some way to the side. Each style of line
ends holds these two against half the line width by a measure of its own. The measures are ordered,
and so are the strokes.
-/
namespace ContentStream
open Scalar

class ExactLengths (K : Type) [ExactField K] : Prop where
  hypot_nonneg (x y : K) : 0 ≤ Scalar.hypot x y
  hypot_mul_self (x y : K) : Scalar.hypot x y * Scalar.hypot x y = x * x + y * y

instance : ExactLengths ℝ where
  hypot_nonneg _ _ := Real.sqrt_nonneg _
  hypot_mul_self x y := Real.mul_self_sqrt (add_nonneg (mul_self_nonneg x) (mul_self_nonneg y))

section Places
variable {K : Type} [Scalar K]

def lineLength (a b : Point K) : K := Scalar.hypot (b.x - a.x) (b.y - a.y)

def lineDirection (a b : Point K) : Point K :=
  ⟨(b.x - a.x) / lineLength a b, (b.y - a.y) / lineLength a b⟩

def alongLine (a b p : Point K) : K :=
  (p.x - a.x) * (lineDirection a b).x + (p.y - a.y) * (lineDirection a b).y

def acrossLine (a b p : Point K) : K :=
  (p.x - a.x) * (lineDirection a b).y - (p.y - a.y) * (lineDirection a b).x

/-- Where a point lies as seen from a line: how far beyond an end, and how far to the side. What is
too short for a line is seen as its first point. -/
def lineOffset (a b p : Point K) : Point K :=
  if lineLength a b ≤ unitSpacing then ⟨p.x - a.x, p.y - a.y⟩
  else ⟨alongLine a b p - clamp (alongLine a b p) 0 (lineLength a b), acrossLine a b p⟩

end Places

variable {K : Type} [ExactField K]

/-! ## Lengths -/

section Lengths
variable [ExactLengths K] {x y x' y' r : K}

theorem hypot_le_iff (hr : 0 ≤ r) : Scalar.hypot x y ≤ r ↔ x * x + y * y ≤ r * r := by
  rw [← ExactLengths.hypot_mul_self]
  exact mul_self_le_mul_self_iff (ExactLengths.hypot_nonneg x y) hr

theorem hypot_eq (hr : 0 ≤ r) (h : x * x + y * y = r * r) : Scalar.hypot x y = r :=
  (mul_self_inj (ExactLengths.hypot_nonneg x y) hr).1 ((ExactLengths.hypot_mul_self x y).trans h)

theorem hypot_congr (h : x * x + y * y = x' * x' + y' * y') :
    Scalar.hypot x y = Scalar.hypot x' y' :=
  hypot_eq (ExactLengths.hypot_nonneg x' y') (h.trans (ExactLengths.hypot_mul_self x' y').symm)

theorem hypot_zero_left (y : K) : Scalar.hypot 0 y = |y| := by
  refine hypot_eq (abs_nonneg y) ?_
  rw [abs_mul_abs_self, zero_mul, zero_add]

theorem hypot_zero_right (x : K) : Scalar.hypot x 0 = |x| := by
  refine hypot_eq (abs_nonneg x) ?_
  rw [abs_mul_abs_self, zero_mul, add_zero]

theorem abs_le_hypot (x y : K) : |x| ≤ Scalar.hypot x y ∧ |y| ≤ Scalar.hypot x y := by
  have hlength := ExactLengths.hypot_nonneg x y
  have hsquare := ExactLengths.hypot_mul_self x y
  constructor
  · refine abs_le_of_sq_le_sq ?_ hlength
    linarith [mul_self_nonneg y]
  · refine abs_le_of_sq_le_sq ?_ hlength
    linarith [mul_self_nonneg x]

end Lengths

/-! ## Lines -/

/-- Whether a point at an offset from a line is covered: straight beside it, in a circle, or in a
square. -/
def LineCap.Reaches (cap : LineCap) (half : K) (o : Point K) : Prop :=
  match cap with
  | butt => o.x = 0 ∧ |o.y| ≤ half
  | round => Scalar.hypot o.x o.y ≤ half
  | projecting => |o.x| ≤ half ∧ |o.y| ≤ half

namespace LineCap.Reaches
variable {cap : LineCap} {half half' : K} {o : Point K}

theorem mono (h : cap.Reaches half o) (hhalf : half ≤ half') : cap.Reaches half' o := by
  cases cap with
  | butt => exact ⟨h.1, h.2.trans hhalf⟩
  | round => exact le_trans h hhalf
  | projecting => exact ⟨h.1.trans hhalf, h.2.trans hhalf⟩

variable [ExactLengths K]

theorem round_of_butt (h : butt.Reaches half o) : round.Reaches half o := by
  obtain ⟨hbeside, hside⟩ := h
  change Scalar.hypot o.x o.y ≤ half
  rw [hbeside, hypot_zero_left]
  exact hside

theorem projecting_of_round (h : round.Reaches half o) : projecting.Reaches half o :=
  ⟨(abs_le_hypot o.x o.y).1.trans h, (abs_le_hypot o.x o.y).2.trans h⟩

end LineCap.Reaches

/-- A number is as far from an interval as it lies beyond an end. -/
theorem abs_sub_clamp_le_iff {x len r : K} (hlen : 0 ≤ len) (hr : 0 ≤ r) :
    |x - clamp x 0 len| ≤ r ↔ -r ≤ x ∧ x ≤ len + r := by
  rw [clamp_eq, abs_le]
  rcases le_total x 0 with hbefore | hafter
  · rw [max_eq_right hbefore, min_eq_left hlen]
    constructor <;> rintro ⟨h, h'⟩ <;> constructor <;> linarith
  · rw [max_eq_left hafter]
    rcases le_total x len with hbeside | hbeyond
    · rw [min_eq_left hbeside]
      constructor <;> intro _ <;> constructor <;> linarith
    · rw [min_eq_right hbeyond]
      constructor <;> rintro ⟨h, h'⟩ <;> constructor <;> linarith

section Long
variable {a b : Point K} (hlong : unitSpacing < lineLength a b)
include hlong

theorem lineLength_pos : 0 < lineLength a b := unitSpacing_pos.trans hlong

theorem lineOffset_of_long (p : Point K) : lineOffset a b p =
    ⟨alongLine a b p - clamp (alongLine a b p) 0 (lineLength a b), acrossLine a b p⟩ :=
  if_neg hlong.not_ge

theorem lineCovers_of_long (half : K) (cap : LineCap) (p : Point K) :
    lineCovers a b half cap p =
      match cap with
      | .round =>
        let t := clamp (alongLine a b p) 0 (lineLength a b)
        decide (Scalar.hypot (p.x - (a.x + (lineDirection a b).x * t))
          (p.y - (a.y + (lineDirection a b).y * t)) ≤ half)
      | .projecting =>
        decide (-half ≤ alongLine a b p) && decide (alongLine a b p ≤ lineLength a b + half) &&
          decide (Scalar.abs (acrossLine a b p) ≤ half)
      | .butt =>
        decide (0 ≤ alongLine a b p) && decide (alongLine a b p ≤ lineLength a b) &&
          decide (Scalar.abs (acrossLine a b p) ≤ half) :=
  if_neg hlong.not_ge

variable [ExactLengths K]

theorem lineDirection_unit : (lineDirection a b).x * (lineDirection a b).x +
    (lineDirection a b).y * (lineDirection a b).y = 1 := by
  have hne : lineLength a b ≠ 0 := (lineLength_pos hlong).ne'
  have hsquare : lineLength a b * lineLength a b = (b.x - a.x) * (b.x - a.x) +
    (b.y - a.y) * (b.y - a.y) := ExactLengths.hypot_mul_self _ _
  simp only [lineDirection]
  rw [div_mul_div_comm, div_mul_div_comm, ← add_div, ← hsquare, div_self (mul_ne_zero hne hne)]

theorem hypot_along (p : Point K) (t : K) :
    Scalar.hypot (p.x - (a.x + (lineDirection a b).x * t))
        (p.y - (a.y + (lineDirection a b).y * t)) =
      Scalar.hypot (alongLine a b p - t) (acrossLine a b p) := by
  have hunit := lineDirection_unit hlong
  apply hypot_congr
  unfold alongLine acrossLine
  linear_combination (t * t - (p.x - a.x) * (p.x - a.x) - (p.y - a.y) * (p.y - a.y)) * hunit

/-- Beyond the end of a line there is a point at every offset. -/
theorem exists_lineOffset {x : K} (hx : 0 ≤ x) (y : K) : ∃ p, lineOffset a b p = ⟨x, y⟩ := by
  have hunit := lineDirection_unit hlong
  have hlength := (lineLength_pos hlong).le
  let u := lineDirection a b
  let t := lineLength a b + x
  let p : Point K := ⟨a.x + u.x * t + u.y * y, a.y + u.y * t - u.x * y⟩
  have halong : alongLine a b p = t := by
    simp only [alongLine, p, u]
    linear_combination t * hunit
  have hacross : acrossLine a b p = y := by
    simp only [acrossLine, p, u]
    linear_combination y * hunit
  refine ⟨p, ?_⟩
  rw [lineOffset_of_long hlong, halong, hacross, clamp_eq, max_eq_left (add_nonneg hlength hx),
    min_eq_right (le_add_of_nonneg_right hx), add_sub_cancel_left]

end Long

/-- A line covers the points whose offset from it is within reach. Butt ends leave nothing of what
is too short for a line. -/
theorem lineCovers_iff [ExactLengths K] (a b : Point K) (half : K) (cap : LineCap) (p : Point K) :
    lineCovers a b half cap p = true ↔
      cap.Reaches half (lineOffset a b p) ∧ (cap = .butt → unitSpacing < lineLength a b) := by
  rcases le_or_gt (lineLength a b) unitSpacing with hshort | hlong
  · have hcovers : lineCovers a b half cap p = dotCovers a half cap p := if_pos hshort
    have hoffset : lineOffset a b p = ⟨p.x - a.x, p.y - a.y⟩ := if_pos hshort
    rw [hcovers, hoffset]
    cases cap <;> simp [dotCovers, LineCap.Reaches, abs_eq, hshort]
  · have hlength := (lineLength_pos hlong).le
    rw [lineCovers_of_long hlong, lineOffset_of_long hlong]
    cases cap with
    | butt =>
      have hbeside := abs_sub_clamp_le_iff (x := alongLine a b p) hlength le_rfl
      rw [abs_nonpos_iff, neg_zero, add_zero] at hbeside
      simp [LineCap.Reaches, abs_eq, hlong, hbeside]
    | round => simp [LineCap.Reaches, hypot_along hlong]
    | projecting =>
      simp only [LineCap.Reaches, abs_eq, Bool.and_eq_true, decide_eq_true_eq, reduceCtorEq,
        false_imp_iff, and_true]
      refine and_congr_left fun hside => (abs_sub_clamp_le_iff hlength ?_).symm
      exact (abs_nonneg _).trans hside

/-! ## Strokes -/

section Strokes
variable {half half' : K} {cap cap' : LineCap}

theorem strokeContains_of_lines {p : Point K}
    (hlines : ∀ a b, lineCovers a b half cap p = true → lineCovers a b half' cap' p = true)
    {subpaths : List (Subpath K)} (h : strokeContains subpaths half cap p = true) :
    strokeContains subpaths half' cap' p = true := by
  obtain ⟨s, hs, hcovers⟩ := List.any_eq_true.1 h
  refine List.any_eq_true.2 ⟨s, hs, ?_⟩
  unfold Subpath.strokeCovers at hcovers ⊢
  split at hcovers
  · exact hlines _ _ hcovers
  · obtain ⟨edge, hedge, hcovers⟩ := List.any_eq_true.1 hcovers
    exact List.any_eq_true.2 ⟨edge, hedge, hlines _ _ hcovers⟩

variable [ExactLengths K]

theorem exists_strokeContains {a b : Point K} (hlong : unitSpacing < lineLength a b) {o : Point K}
    (hx : 0 ≤ o.x) (ho : cap'.Reaches half' o) (ho' : ¬ cap.Reaches half o) :
    ∃ p, strokeContains [⟨[a, b], false⟩] half' cap' p = true ∧
      strokeContains [⟨[a, b], false⟩] half cap p = false := by
  have hline : ∀ half cap p,
      strokeContains [⟨[a, b], false⟩] half cap p = lineCovers a b half cap p := by
    intro half cap p
    simp [strokeContains, Subpath.strokeCovers, Subpath.edges]
  obtain ⟨p, hp⟩ := exists_lineOffset hlong hx o.y
  refine ⟨p, ?_, ?_⟩
  · rw [hline, lineCovers_iff, hp]
    exact ⟨ho, fun _ => hlong⟩
  · rw [hline, ← Bool.not_eq_true, lineCovers_iff, hp]
    exact fun hcovers => ho' hcovers.1

/-- What a stroke with butt ends covers is covered with round ends too, and what one with round ends
covers, with projecting ones. A wider stroke covers all that a narrower one with the same ends does.
Along any line that is not too short for one, the three differ from each other, and each of them
from all wider ones. -/
theorem strokeContains_ordered :
    (∀ (subpaths : List (Subpath K)) (half : K) (p : Point K),
      (strokeContains subpaths half .butt p = true →
        strokeContains subpaths half .round p = true) ∧
      (strokeContains subpaths half .round p = true →
        strokeContains subpaths half .projecting p = true) ∧
      ∀ cap half', half ≤ half' → strokeContains subpaths half cap p = true →
        strokeContains subpaths half' cap p = true) ∧
    ∀ (a b : Point K) (half : K), unitSpacing < lineLength a b → 0 < half →
      let line : List (Subpath K) := [⟨[a, b], false⟩]
      (∃ p, strokeContains line half .round p = true ∧ strokeContains line half .butt p = false) ∧
      (∃ p, strokeContains line half .projecting p = true ∧
        strokeContains line half .round p = false) ∧
      ∀ cap half', half < half' →
        ∃ p, strokeContains line half' cap p = true ∧ strokeContains line half cap p = false := by
  constructor
  · intro subpaths half p
    refine ⟨?_, ?_, ?_⟩
    · refine strokeContains_of_lines fun a b h => ?_
      rw [lineCovers_iff] at h ⊢
      exact ⟨h.1.round_of_butt, nofun⟩
    · refine strokeContains_of_lines fun a b h => ?_
      rw [lineCovers_iff] at h ⊢
      exact ⟨h.1.projecting_of_round, nofun⟩
    · intro cap half' hhalf
      refine strokeContains_of_lines fun a b h => ?_
      rw [lineCovers_iff] at h ⊢
      exact ⟨h.1.mono hhalf, h.2⟩
  · intro a b half hlong hhalf line
    refine ⟨?_, ?_, ?_⟩
    · -- Straight on from the end.
      refine exists_strokeContains (o := ⟨half, 0⟩) hlong hhalf.le ?_ fun h => hhalf.ne' h.1
      change Scalar.hypot half 0 ≤ half
      rw [hypot_zero_right, abs_of_pos hhalf]
    · -- In a corner of the square.
      refine exists_strokeContains (o := ⟨half, half⟩) hlong hhalf.le ?_ fun h => ?_
      · exact ⟨(abs_of_pos hhalf).le, (abs_of_pos hhalf).le⟩
      · have hsquares := (hypot_le_iff hhalf.le).1 h
        linarith [mul_pos hhalf hhalf]
    · -- Beside the end.
      intro cap half' hwider
      have habs : |half'| = half' := abs_of_pos (hhalf.trans hwider)
      refine exists_strokeContains (o := ⟨0, half'⟩) hlong le_rfl ?_ fun h => ?_
      · cases cap <;> simp [LineCap.Reaches, hypot_zero_left, habs, (hhalf.trans hwider).le]
      · cases cap <;>
          simp [LineCap.Reaches, hypot_zero_left, habs, hwider.not_ge] at h

/-- A dot and a line of length five, and a point at a distance of one from the line. -/
theorem strokeContains_ordered_slanted :
    let a : Point ℝ := ⟨0, 0⟩
    let b : Point ℝ := ⟨3, 4⟩
    let subpaths : List (Subpath ℝ) := [⟨[⟨9, 9⟩], false⟩, ⟨[a, b], false⟩]
    strokeContains subpaths 1 .butt ⟨1, 3⟩ = true ∧
    strokeContains subpaths 2 .projecting ⟨1, 3⟩ = true ∧
    unitSpacing < lineLength a b ∧
    ∃ p, strokeContains [⟨[a, b], false⟩] 1 .round p = true ∧
      strokeContains [⟨[a, b], false⟩] 1 .butt p = false := by
  intro a b subpaths
  have hlength : lineLength a b = 5 := hypot_eq (by norm_num) (by norm_num [a, b])
  have hlong : unitSpacing < lineLength a b := by
    rw [hlength]
    norm_num [unitSpacing]
  have hoffset : lineOffset a b ⟨1, 3⟩ = ⟨0, -1⟩ := by
    rw [lineOffset_of_long hlong]
    norm_num [alongLine, acrossLine, lineDirection, hlength, clamp_eq, a, b]
  have hline : lineCovers a b 1 .butt ⟨1, 3⟩ = true := by
    rw [lineCovers_iff, hoffset]
    exact ⟨⟨rfl, by norm_num⟩, fun _ => hlong⟩
  have hbutt : strokeContains subpaths 1 .butt ⟨1, 3⟩ = true := by
    refine List.any_eq_true.2 ⟨⟨[a, b], false⟩, by simp [subpaths], ?_⟩
    exact List.any_eq_true.2 ⟨(a, b), by simp [Subpath.edges], hline⟩
  obtain ⟨hordered, hstrict⟩ := strokeContains_ordered (K := ℝ)
  obtain ⟨hround, hprojecting, hwider⟩ := hordered subpaths 1 ⟨1, 3⟩
  have hprojecting' : strokeContains subpaths 1 .projecting ⟨1, 3⟩ = true :=
    hprojecting (hround hbutt)
  refine ⟨hbutt, ?_, hlong, (hstrict a b 1 hlong one_pos).1⟩
  exact hwider .projecting 2 one_le_two hprojecting'

end Strokes
end ContentStream
