import Mathlib
import ContentStream.Proofs.ConstantMask
import ContentStream.Proofs.SoundStates

set_option autoImplicit false

namespace ContentStream
open Scalar
variable {K : Type} [ExactField K]

def Ink.faded (s : K) (i : Ink K) : Ink K := ⟨i.rgb, s * i.alpha⟩

def Sampler.faded (s : K) (t : Sampler K) : Sampler K where
  area := t.area.map fun x => (x.1, x.2.faded s)
  stroke := t.stroke.map fun x => (x.1, x.2.faded s)

namespace Layer

def faded (s : K) : Layer K → Layer K
  | vector sampler => vector (sampler.faded s)
  | pixels image inverse alpha => pixels image inverse (s * alpha)

def HasUnitAlphas : Layer K → Prop
  | vector t => (∀ x ∈ t.area, InUnit x.2.alpha) ∧ ∀ x ∈ t.stroke, InUnit x.2.alpha
  | pixels _ _ alpha => InUnit alpha

def paint? (p : Point K) (layer : Layer K × GraphicsState K) : Option (Rgb K × K) :=
  (layer.1.sample? p).bind fun x =>
    if 0 < x.2 * layer.2.clipCoverage p then some (x.1, x.2 * layer.2.clipCoverage p) else none

end Layer

theorem Accumulated.addLayer_eq (knockout : Bool) (p : Point K) (acc : Accumulated K)
    (layer : Layer K × GraphicsState K) :
    acc.addLayer knockout p layer =
      (Layer.paint? p layer).elim acc fun x => acc.add knockout x.1 x.2 := by
  unfold addLayer Layer.paint?
  cases layer.1.sample? p with
  | none => rfl
  | some x =>
    rw [Option.bind_some]
    by_cases h : 0 < x.2 * layer.2.clipCoverage p
    · rw [if_pos h]
      rfl
    · rw [if_neg h]
      exact if_pos (not_lt.1 h)

/-- The second sample covers no more than the first one, and less if the factor is below one. -/
inductive Fades (s : K) : Option (Rgb K × K) → Option (Rgb K × K) → Prop
  | outside : Fades s none none
  | covered {rgb rgb' : Rgb K} {a a' : K} (hle : a' ≤ a) (hlt : s < 1 → 0 < a → a' < a) :
      Fades s (some (rgb, a)) (some (rgb', a'))

section Fading
variable {s : K}

theorem inUnit_mul {x : K} (hs : InUnit s) (hx : InUnit x) : InUnit (s * x) :=
  ⟨mul_nonneg hs.1 hx.1, mul_le_one₀ hs.2 hx.1 hx.2⟩

theorem clampUnit_of_inUnit {x : K} (h : InUnit x) : clampUnit x = x :=
  clampUnit_of_mem h.1 h.2

theorem Fades.scaled (hs : InUnit s) {a : K} (ha : 0 ≤ a) (rgb : Rgb K) :
    Fades s (some (rgb, a)) (some (rgb, s * a)) := by
  refine .covered (mul_le_of_le_one_left ha hs.2) ?_
  intro hlt hpos
  exact mul_lt_of_lt_one_left hpos hlt

theorem Sampler.blend_coverage {top bottom : Ink K} (ht : InUnit top.alpha)
    (hb : InUnit bottom.alpha) :
    (blend top bottom).2 = top.alpha + bottom.alpha * (1 - top.alpha) := by
  have hnonneg : 0 ≤ top.alpha + bottom.alpha * (1 - top.alpha) :=
    add_nonneg ht.1 (mul_nonneg hb.1 (sub_nonneg.2 ht.2))
  unfold blend
  rw [clampUnit_of_inUnit ht, clampUnit_of_inUnit hb]
  dsimp only
  split
  · rename_i h
    exact le_antisymm hnonneg h
  · rfl

theorem coverage_sub_faded (t f : K) :
    t + f * (1 - t) - (s * t + s * f * (1 - s * t)) =
      (1 - s) * (t * (1 - f) + f * (1 - s * t)) := by
  ring

theorem Sampler.blend_faded (hs : InUnit s) {top bottom : Ink K} (ht : InUnit top.alpha)
    (hb : InUnit bottom.alpha) :
    Fades s (some (blend top bottom)) (some (blend (top.faded s) (bottom.faded s))) := by
  have hcoverage := blend_coverage ht hb
  have hfaded : (blend (top.faded s) (bottom.faded s)).2 =
      s * top.alpha + s * bottom.alpha * (1 - s * top.alpha) :=
    blend_coverage (inUnit_mul hs ht) (inUnit_mul hs hb)
  have hlost := coverage_sub_faded (s := s) top.alpha bottom.alpha
  have hst : 0 ≤ 1 - s * top.alpha := sub_nonneg.2 (inUnit_mul hs ht).2
  have hleft : 0 ≤ top.alpha * (1 - bottom.alpha) := mul_nonneg ht.1 (sub_nonneg.2 hb.2)
  have hright : 0 ≤ bottom.alpha * (1 - s * top.alpha) := mul_nonneg hb.1 hst
  change Fades s (some ((blend top bottom).1, (blend top bottom).2))
    (some ((blend (top.faded s) (bottom.faded s)).1, (blend (top.faded s) (bottom.faded s)).2))
  rw [hcoverage, hfaded]
  constructor
  · rw [← sub_nonneg, hlost]
    exact mul_nonneg (sub_nonneg.2 hs.2) (add_nonneg hleft hright)
  · intro hlt hpos
    rw [← sub_pos, hlost]
    refine mul_pos (sub_pos.2 hlt) ?_
    rcases hb.1.eq_or_lt with hzero | hbottom
    · rw [← hzero, zero_mul, add_zero] at hpos
      rw [← hzero]
      simpa using hpos
    · have hle : s * top.alpha ≤ s := mul_le_of_le_one_right hs.1 ht.2
      exact add_pos_of_nonneg_of_pos hleft (mul_pos hbottom (sub_pos.2 (hle.trans_lt hlt)))

variable {t : Sampler K} {l : Layer K}

theorem Sampler.sample?_faded (hs : InUnit s) (ht : (Layer.vector t).HasUnitAlphas)
    (p : Point K) : Fades s (t.sample? p) ((t.faded s).sample? p) := by
  have hink : ∀ i : Ink K, InUnit i.alpha →
      Fades s (some (i.rgb, clampUnit i.alpha)) (some (i.rgb, clampUnit (s * i.alpha))) := by
    intro i hi
    rw [clampUnit_of_inUnit hi, clampUnit_of_inUnit (inUnit_mul hs hi)]
    exact .scaled hs hi.1 i.rgb
  obtain ⟨harea, hstroke⟩ := ht
  obtain ⟨area, stroke⟩ := t
  unfold sample?
  dsimp only [Sampler.faded]
  -- Whether the area and the stroke contain the point does not depend on the alphas.
  cases area with
  | none =>
    cases stroke with
    | none => exact .outside
    | some y =>
      simp only [Option.map_some, Option.map_none, Option.bind_some, Option.bind_none]
      by_cases hy : y.1.contains p = true
      · simp only [if_pos hy]
        exact hink y.2 (hstroke y rfl)
      · simp only [if_neg hy]
        exact .outside
  | some x =>
    cases stroke with
    | none =>
      simp only [Option.map_some, Option.map_none, Option.bind_some, Option.bind_none]
      by_cases hx : x.1.contains p = true
      · simp only [if_pos hx]
        exact hink x.2 (harea x rfl)
      · simp only [if_neg hx]
        exact .outside
    | some y =>
      simp only [Option.map_some, Option.bind_some]
      by_cases hx : x.1.contains p = true
      · by_cases hy : y.1.contains p = true
        · simp only [if_pos hx, if_pos hy]
          exact blend_faded hs (hstroke y rfl) (harea x rfl)
        · simp only [if_pos hx, if_neg hy]
          exact hink x.2 (harea x rfl)
      · by_cases hy : y.1.contains p = true
        · simp only [if_neg hx, if_pos hy]
          exact hink y.2 (hstroke y rfl)
        · simp only [if_neg hx, if_neg hy]
          exact .outside

theorem Layer.sample?_faded (hs : InUnit s) (hl : l.HasUnitAlphas) (p : Point K) :
    Fades s (l.sample? p) ((l.faded s).sample? p) := by
  cases l with
  | vector t => exact Sampler.sample?_faded hs hl p
  | pixels image inverse alpha =>
    simp only [Layer.faded, Layer.sample?]
    cases Grid.cell? image.width image.height (inverse.apply p) with
    | none => exact .outside
    | some cell =>
      simp only [Option.map_some]
      have hscaled : ofByte (image.pixel cell.1 cell.2).alpha * (s * alpha) =
          s * (ofByte (image.pixel cell.1 cell.2).alpha * alpha) := by
        ring
      rw [hscaled]
      exact .scaled hs (mul_nonneg (ofByte_nonneg _) hl.1) _

theorem Sampler.faded_one (t : Sampler K) : t.faded 1 = t := by
  have hink : ∀ i : Ink K, i.faded 1 = i := fun i => by simp [Ink.faded]
  simp [Sampler.faded, hink]

theorem Layer.faded_one (l : Layer K) : l.faded 1 = l := by
  cases l with
  | vector t => simp [Layer.faded, Sampler.faded_one]
  | pixels => simp [Layer.faded]

section Clipped
variable {g h : GraphicsState K} (hclip : ∀ p, h.clipCoverage p = g.clipCoverage p)
include hclip

theorem Layer.paint?_faded_eq_none (hs : InUnit s) (hl : l.HasUnitAlphas) {p : Point K}
    (hnone : paint? p (l, g) = none) : paint? p (l.faded s, h) = none := by
  have hfades : Fades s (l.sample? p) ((l.faded s).sample? p) := sample?_faded hs hl p
  unfold paint? at hnone ⊢
  dsimp only at hnone ⊢
  rw [hclip p]
  generalize l.sample? p = x at hnone hfades
  generalize (l.faded s).sample? p = y at hfades
  cases hfades with
  | outside => rfl
  | @covered rgb rgb' a a' hle hless =>
    simp only [Option.bind_some] at hnone ⊢
    have hnot : ¬ 0 < a * g.clipCoverage p := by
      intro hpos
      rw [if_pos hpos] at hnone
      exact absurd hnone (by simp)
    have hle' : a' * g.clipCoverage p ≤ a * g.clipCoverage p :=
      mul_le_mul_of_nonneg_right hle (g.clipCoverage_nonneg p)
    exact if_neg (not_lt.2 (hle'.trans (not_lt.1 hnot)))

theorem Layer.paint?_faded_ne (hs : InUnit s) (hlt : s < 1) (hl : l.HasUnitAlphas) {p : Point K}
    (hsome : paint? p (l, g) ≠ none) : paint? p (l.faded s, h) ≠ paint? p (l, g) := by
  have hfades : Fades s (l.sample? p) ((l.faded s).sample? p) := sample?_faded hs hl p
  intro heq
  unfold paint? at heq hsome
  dsimp only at heq hsome
  rw [hclip p] at heq
  generalize l.sample? p = x at heq hsome hfades
  generalize (l.faded s).sample? p = y at heq hfades
  cases hfades with
  | outside => exact hsome rfl
  | @covered rgb rgb' a a' hle hless =>
    simp only [Option.bind_some] at heq hsome
    by_cases hpos : 0 < a * g.clipCoverage p
    · obtain ⟨ha, hc⟩ : 0 < a ∧ 0 < g.clipCoverage p := by
        rcases mul_pos_iff.1 hpos with h | h
        · exact h
        · exact absurd h.2 (g.clipCoverage_nonneg p).not_gt
      have hlost : a' * g.clipCoverage p < a * g.clipCoverage p :=
        mul_lt_mul_of_pos_right (hless hlt ha) hc
      rw [if_pos hpos] at heq
      split at heq
      · exact hlost.ne (Prod.mk.inj (Option.some.inj heq)).2
      · exact absurd heq (by simp)
    · exact hsome (if_neg hpos)

/-- Fading changes what a layer paints at a point exactly if there is something to fade. -/
theorem Layer.paint?_faded_eq_iff (hs : InUnit s) (hl : l.HasUnitAlphas) (p : Point K) :
    paint? p (l.faded s, h) = paint? p (l, g) ↔ s = 1 ∨ paint? p (l, g) = none := by
  constructor
  · intro heq
    by_contra hne
    obtain ⟨hs1, hsome⟩ := not_or.1 hne
    exact paint?_faded_ne hclip hs (lt_of_le_of_ne hs.2 hs1) hl hsome heq
  · rintro (rfl | hnone)
    · unfold paint?
      rw [faded_one, hclip p]
    · rw [hnone]
      exact paint?_faded_eq_none hclip hs hl hnone

end Clipped

end Fading
end ContentStream
