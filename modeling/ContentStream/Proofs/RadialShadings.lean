import Mathlib
import ContentStream.Raster.Shading
import ContentStream.Proofs.MaskSampling

set_option autoImplicit false

namespace ContentStream
open Scalar

class ExactRoots (K : Type) [ExactField K] : Prop where
  sqrt_nonneg (x : K) : 0 ≤ Scalar.sqrt x
  mul_self_sqrt {x : K} (h : 0 ≤ x) : Scalar.sqrt x * Scalar.sqrt x = x

noncomputable instance : ExactField ℝ where
  sqrt := Real.sqrt
  hypot x y := Real.sqrt (x * x + y * y)
  pow x y := x ^ y

instance : ExactRoots ℝ where
  sqrt_nonneg := Real.sqrt_nonneg
  mul_self_sqrt := Real.mul_self_sqrt

section Distance
variable {K : Type} [Scalar K]

def Point.distance (p q : Point K) : K :=
  Scalar.sqrt ((p.x - q.x) * (p.x - q.x) + (p.y - q.y) * (p.y - q.y))

end Distance

namespace ShadingKind

section Circles
variable {K : Type} [Scalar K]

def center (c0 c1 : Point K) (s : K) : Point K :=
  ⟨c0.x + s * (c1.x - c0.x), c0.y + s * (c1.y - c0.y)⟩

def radius (r0 r1 s : K) : K := r0 + s * (r1 - r0)

/-- The circle at `s` goes through the point and is drawn: it has a radius, and it lies between the
ends or on an extended side. -/
structure DrawnThrough (c0 : Point K) (r0 : K) (c1 : Point K) (r1 : K) (extend : Bool × Bool)
    (q : Point K) (s : K) : Prop where
  distance : q.distance (center c0 c1 s) = radius r0 r1 s
  radius : 0 ≤ radius r0 r1 s
  start : 0 ≤ s ∨ extend.1 = true
  finish : s ≤ 1 ∨ extend.2 = true

/-! The coefficients of the equation `a s² - 2 b s + c = 0` for the circles through a point. -/

def leading (c0 : Point K) (r0 : K) (c1 : Point K) (r1 : K) : K :=
  (c1.x - c0.x) * (c1.x - c0.x) + (c1.y - c0.y) * (c1.y - c0.y) - (r1 - r0) * (r1 - r0)

def halfLinear (c0 : Point K) (r0 : K) (c1 : Point K) (r1 : K) (q : Point K) : K :=
  (q.x - c0.x) * (c1.x - c0.x) + (q.y - c0.y) * (c1.y - c0.y) + r0 * (r1 - r0)

def constant (c0 : Point K) (r0 : K) (q : Point K) : K :=
  (q.x - c0.x) * (q.x - c0.x) + (q.y - c0.y) * (q.y - c0.y) - r0 * r0

end Circles

variable {K : Type} [ExactField K]

def IsLargest (x : Option K) (S : Set K) : Prop :=
  (x.isSome = true ↔ S.Nonempty) ∧ ∀ s, x = some s → IsGreatest S s

theorem isLargest_none {S : Set K} (h : ∀ s, s ∉ S) : IsLargest none S := by
  refine ⟨?_, by simp⟩
  simpa [Set.Nonempty] using h

theorem isLargest_some {S : Set K} {s : K} (h : IsGreatest S s) : IsLargest (some s) S := by
  refine ⟨iff_of_true rfl ⟨s, h.1⟩, ?_⟩
  rintro _ ⟨⟩
  exact h

theorem isLargest_of_pair {S : Set K} (ok : K → Bool) {hi lo : K} (h : lo ≤ hi)
    (hS : ∀ s, s ∈ S ↔ (s = hi ∨ s = lo) ∧ ok s = true) :
    IsLargest (if ok hi then some hi else if ok lo then some lo else none) S := by
  cases hhi : ok hi with
  | true =>
    refine isLargest_some ⟨(hS hi).2 ⟨.inl rfl, hhi⟩, ?_⟩
    intro s hs
    rcases ((hS s).1 hs).1 with rfl | rfl
    · exact le_rfl
    · exact h
  | false =>
    have honly : ∀ s ∈ S, s = lo ∧ ok lo = true := by
      intro s hs
      obtain ⟨rfl | rfl, hok⟩ := (hS s).1 hs
      · exact absurd hok (by simp [hhi])
      · exact ⟨rfl, hok⟩
    cases hlo : ok lo with
    | true =>
      refine isLargest_some ⟨(hS lo).2 ⟨.inr rfl, hlo⟩, ?_⟩
      intro s hs
      exact (honly s hs).1.le
    | false =>
      refine isLargest_none ?_
      intro s hs
      exact absurd (honly s hs).2 (by simp [hlo])

section Equation
variable {a b c root s : K}

theorem linear_iff (hb : b ≠ 0) : 0 * s * s - 2 * b * s + c = 0 ↔ s = c / (2 * b) := by
  rw [eq_div_iff (mul_ne_zero two_ne_zero hb)]
  constructor <;> intro h <;> linarith

theorem square_eq :
    a * (a * s * s - 2 * b * s + c) = (a * s - b) * (a * s - b) - (b * b - a * c) := by
  ring

theorem not_quadratic (h : b * b - a * c < 0) : a * s * s - 2 * b * s + c ≠ 0 := by
  intro hzero
  have hsquare := @square_eq _ _ a b c s
  rw [hzero, mul_zero] at hsquare
  linarith [mul_self_nonneg (a * s - b)]

theorem quadratic_iff (ha : a ≠ 0) (hroot : root * root = b * b - a * c) :
    a * s * s - 2 * b * s + c = 0 ↔ s = (b + root) / a ∨ s = (b - root) / a := by
  have hfactors : a * (a * s * s - 2 * b * s + c) =
      (s * a - (b + root)) * (s * a - (b - root)) := by
    rw [square_eq, ← hroot]
    ring
  rw [eq_div_iff ha, eq_div_iff ha, ← sub_eq_zero (b := b + root), ← sub_eq_zero (b := b - root),
    ← mul_eq_zero, ← hfactors, mul_eq_zero, or_iff_right ha]

end Equation

section Radial
variable (c0 : Point K) (r0 : K) (c1 : Point K) (r1 : K) (extend : Bool × Bool) (q : Point K)

theorem usable_iff {dr s : K} : usable r0 dr extend s = true ↔
    0 ≤ r0 + s * dr ∧ (0 ≤ s ∨ extend.1 = true) ∧ (s ≤ 1 ∨ extend.2 = true) := by
  simp [usable, and_assoc]

theorem drawnThrough_iff [ExactRoots K] (s : K) : DrawnThrough c0 r0 c1 r1 extend q s ↔
    leading c0 r0 c1 r1 * s * s - 2 * halfLinear c0 r0 c1 r1 q * s + constant c0 r0 q = 0 ∧
      usable r0 (r1 - r0) extend s = true := by
  let D : K := (q.x - (center c0 c1 s).x) * (q.x - (center c0 c1 s).x) +
    (q.y - (center c0 c1 s).y) * (q.y - (center c0 c1 s).y)
  have hD : 0 ≤ D := add_nonneg (mul_self_nonneg _) (mul_self_nonneg _)
  have hequation : leading c0 r0 c1 r1 * s * s - 2 * halfLinear c0 r0 c1 r1 q * s +
      constant c0 r0 q = D - radius r0 r1 s * radius r0 r1 s := by
    simp only [leading, halfLinear, constant, center, radius, D]
    ring
  have hroot : Scalar.sqrt D * Scalar.sqrt D = D := ExactRoots.mul_self_sqrt hD
  rw [hequation, usable_iff, sub_eq_zero]
  constructor
  · rintro ⟨hdistance, hradius, hstart, hfinish⟩
    refine ⟨?_, hradius, hstart, hfinish⟩
    rw [← hroot]
    exact congrArg (fun r => r * r) hdistance
  · rintro ⟨hsquares, hradius, hstart, hfinish⟩
    refine ⟨?_, hradius, hstart, hfinish⟩
    exact (mul_self_inj (ExactRoots.sqrt_nonneg D) hradius).1 (hroot.trans hsquares)

theorem isLargest_linear {b c : K} (hb : b ≠ 0) (ok : K → Bool) :
    IsLargest (if ok (c / (2 * b)) then some (c / (2 * b)) else none)
      {s | 0 * s * s - 2 * b * s + c = 0 ∧ ok s = true} := by
  simp only [linear_iff hb]
  cases hok : ok (c / (2 * b)) with
  | true =>
    refine isLargest_some ⟨⟨rfl, hok⟩, ?_⟩
    rintro s ⟨rfl, -⟩
    exact le_rfl
  | false =>
    refine isLargest_none ?_
    rintro s ⟨rfl, hs⟩
    exact absurd hs (by simp [hok])

theorem isLargest_quadratic {a b c root : K} (ha : a ≠ 0) (hroot : root * root = b * b - a * c)
    (ok : K → Bool) :
    IsLargest
      (let s1 := (b + root) / a
       let s2 := (b - root) / a
       let (hi, lo) := if s2 ≤ s1 then (s1, s2) else (s2, s1)
       if ok hi then some hi else if ok lo then some lo else none)
      {s | a * s * s - 2 * b * s + c = 0 ∧ ok s = true} := by
  have hroots : ∀ s, a * s * s - 2 * b * s + c = 0 ∧ ok s = true ↔
      (s = (b + root) / a ∨ s = (b - root) / a) ∧ ok s = true :=
    fun s => and_congr_left' (quadratic_iff ha hroot)
  dsimp only
  split
  · exact isLargest_of_pair ok ‹_› hroots
  · -- A negative leading coefficient turns the two roots around.
    exact isLargest_of_pair ok (le_of_not_ge ‹_›) fun s =>
      (hroots s).trans (and_congr_left' or_comm)

theorem radialParameter?_eq : radialParameter? c0 r0 c1 r1 extend q =
    let a := leading c0 r0 c1 r1
    let b := halfLinear c0 r0 c1 r1 q
    let c := constant c0 r0 q
    let ok := usable r0 (r1 - r0) extend
    if Scalar.abs a ≤ unitSpacing then
      if Scalar.abs b ≤ unitSpacing then none
      else if ok (c / (((2 : Nat) : K) * b)) then some (c / (((2 : Nat) : K) * b)) else none
    else if b * b - a * c < 0 then none
    else
      let root := Scalar.sqrt (b * b - a * c)
      let s1 := (b + root) / a
      let s2 := (b - root) / a
      let (hi, lo) := if s2 ≤ s1 then (s1, s2) else (s2, s1)
      if ok hi then some hi else if ok lo then some lo else none := rfl

/-- In exact arithmetic the parameter of a point is the largest one whose circle is drawn through
it, and there is one whenever any circle is drawn through the point. The equation for it has to be
one, with coefficients that do not pass for zero without being zero. -/
theorem radialParameter?_greatest [ExactRoots K]
    (h : unitSpacing < |leading c0 r0 c1 r1| ∨
      leading c0 r0 c1 r1 = 0 ∧ unitSpacing < |halfLinear c0 r0 c1 r1 q|) :
    ((radialParameter? c0 r0 c1 r1 extend q).isSome = true ↔
      ∃ s, DrawnThrough c0 r0 c1 r1 extend q s) ∧
    ∀ s, radialParameter? c0 r0 c1 r1 extend q = some s →
      IsGreatest {t | DrawnThrough c0 r0 c1 r1 extend q t} s := by
  change IsLargest _ {s | DrawnThrough c0 r0 c1 r1 extend q s}
  simp only [drawnThrough_iff]
  rw [radialParameter?_eq]
  dsimp only
  generalize leading c0 r0 c1 r1 = a at h ⊢
  generalize halfLinear c0 r0 c1 r1 q = b at h ⊢
  generalize constant c0 r0 q = c
  rw [abs_eq, abs_eq]
  rcases h with ha | ⟨rfl, hb⟩
  · have hne : a ≠ 0 := abs_pos.1 (unitSpacing_pos.trans ha)
    rw [if_neg (not_le.2 ha)]
    split
    · exact isLargest_none fun s hs => not_quadratic ‹_› hs.1
    · exact isLargest_quadratic hne (ExactRoots.mul_self_sqrt (not_lt.1 ‹_›)) _
  · have hne : b ≠ 0 := abs_pos.1 (unitSpacing_pos.trans hb)
    rw [abs_zero, if_pos unitSpacing_pos.le, if_neg (not_le.2 hb), Nat.cast_ofNat]
    exact isLargest_linear hne _

end Radial

/-- A cone that narrows to its tip at the end and is extended at both. The larger root for the
point has no radius, and the smaller one lies before the start. -/
theorem radialParameter?_greatest_narrowing :
    let c0 : Point ℝ := ⟨0, 0⟩
    let c1 : Point ℝ := ⟨1, 0⟩
    let q : Point ℝ := ⟨3, 0⟩
    unitSpacing < |leading c0 2 c1 0| ∧
    radialParameter? c0 2 c1 0 (true, true) q = some (-1) ∧
    radialParameter? c0 2 c1 0 (false, true) q = none := by
  intro c0 c1 q
  have hleading : unitSpacing < |leading c0 2 c1 0| := by
    norm_num [c0, c1, leading, unitSpacing]
  have hdistance : ∀ s, q.distance (center c0 c1 s) = |3 - s| := by
    intro s
    rw [← Real.sqrt_mul_self_eq_abs]
    change Real.sqrt _ = _
    norm_num [c0, c1, q, center]
  have honly : ∀ extend s, DrawnThrough c0 2 c1 0 extend q s → s = -1 := by
    rintro extend s ⟨hs, hradius, -, -⟩
    rw [hdistance] at hs
    simp only [radius] at hs hradius
    rw [abs_of_nonneg (by linarith)] at hs
    linarith
  obtain ⟨hsome, hgreatest⟩ :=
    radialParameter?_greatest c0 2 c1 0 (true, true) q (.inl hleading)
  obtain ⟨hnone, -⟩ := radialParameter?_greatest c0 2 c1 0 (false, true) q (.inl hleading)
  refine ⟨hleading, ?_, ?_⟩
  · have hdrawn : DrawnThrough c0 2 c1 0 (true, true) q (-1) := by
      refine ⟨?_, ?_, .inr rfl, .inr rfl⟩
      · rw [hdistance]
        norm_num [radius]
      · norm_num [radius]
    obtain ⟨s, hs⟩ := Option.isSome_iff_exists.1 (hsome.2 ⟨-1, hdrawn⟩)
    rw [hs, honly _ s (hgreatest s hs).1]
  · refine Option.not_isSome_iff_eq_none.1 fun hs => ?_
    obtain ⟨s, hdrawn⟩ := hnone.1 hs
    rcases hdrawn.start with hstart | hstart
    · rw [honly _ s hdrawn] at hstart
      norm_num at hstart
    · exact absurd hstart (by simp)

end ShadingKind
end ContentStream
