import Mathlib
import ContentStream.Proofs.FadedLayers
import ContentStream.Proofs.GroupImages

set_option autoImplicit false

namespace ContentStream
open Scalar

theorem constantValue?_cases {K : Type} [Scalar K] (kind : MaskKind) (bbox : Rect K)
    (es : List (Element K)) :
    (∃ x y w h rule state, es = [.path ⟨[.rect x y w h], .fill, rule, state⟩]) ∨
      constantValue? kind bbox es = none ∧
        ∀ f, constantValue? kind bbox (es.map (Element.mapState f)) = none := by
  have hnone : ∀ es' : List (Element K),
      (∀ x y w h rule state, es' ≠ [.path ⟨[.rect x y w h], .fill, rule, state⟩]) →
        constantValue? kind bbox es' = none := by
    intro es' hother
    unfold constantValue?
    split
    · exact (hother _ _ _ _ _ _ rfl).elim
    · rfl
  by_cases hfill : ∃ x y w h rule state, es = [.path ⟨[.rect x y w h], .fill, rule, state⟩]
  · exact .inl hfill
  · have hother : ∀ x y w h rule state,
        es ≠ [.path ⟨[.rect x y w h], .fill, rule, state⟩] := by
      rintro x y w h rule state rfl
      exact hfill ⟨x, y, w, h, rule, state, rfl⟩
    refine .inr ⟨hnone es hother, ?_⟩
    intro f
    refine hnone _ ?_
    intro x y w h rule state heq
    obtain ⟨e, rfl, he⟩ := List.map_eq_singleton_iff.1 heq
    cases e with
    | path e =>
      obtain ⟨segments, paint, rule', state'⟩ := e
      simp only [Element.mapState, Element.path.injEq, PathElement.mk.injEq] at he
      obtain ⟨rfl, rfl, rfl, -⟩ := he
      exact hother x y w h _ state' rfl
    | text | image | raster => exact absurd he (by simp [Element.mapState])

variable {K : Type} [ExactField K]

namespace GraphicsState

def absorbMask (g : GraphicsState K) : GraphicsState K :=
  { g.clearSoftMask with
    fillAlpha := g.softMaskAlpha * g.fillAlpha
    strokeAlpha := g.softMaskAlpha * g.strokeAlpha }

theorem clipCoverage_absorbMask (g : GraphicsState K) (p : Point K) :
    g.absorbMask.clipCoverage p = g.clipCoverage p := rfl

end GraphicsState

namespace Sampler

theorem ofElement?_absorbMask (e : Element K) :
    ofElement? (e.mapState .absorbMask) =
      (ofElement? e).map (Sampler.faded e.state.softMaskAlpha) := by
  cases e with
  | path e =>
    obtain ⟨segments, paint, rule, state⟩ := e
    cases paint <;> rfl
  | text e =>
    have hink : e.state.absorbMask.textInk? =
        e.state.textInk?.map (Ink.faded e.state.softMaskAlpha) := by
      unfold GraphicsState.textInk?
      change (if e.state.text.fills then _ else if e.state.text.strokesOnly then _ else _) = _
      split
      · rfl
      · split <;> rfl
    change e.state.absorbMask.textInk?.map _ = (e.state.textInk?.map _).map _
    rw [hink]
    cases e.state.textInk? <;> rfl
  | image | raster => rfl

theorem inks_ofElement? {e : Element K} {t : Sampler K} (h : ofElement? e = some t) :
    (∀ x ∈ t.area, x.2 = e.state.fillInk ∨ x.2 = e.state.strokeInk) ∧
      ∀ x ∈ t.stroke, x.2 = e.state.strokeInk := by
  cases e with
  | path e =>
    change ofPath? e = some t at h
    unfold ofPath? at h
    split at h
    · obtain rfl := Option.some.inj h
      constructor
      · intro x hx
        dsimp only at hx
        split at hx
        · obtain rfl := Option.some.inj hx
          exact .inl rfl
        · exact absurd hx (by simp)
      · intro x hx
        dsimp only at hx
        split at hx
        · obtain rfl := Option.some.inj hx
          rfl
        · exact absurd hx (by simp)
    · exact absurd h (by simp)
  | text e =>
    obtain ⟨ink, hink, rfl⟩ := Option.map_eq_some_iff.1 h
    refine ⟨?_, by simp⟩
    intro x hx
    obtain rfl := Option.some.inj hx
    unfold GraphicsState.textInk? at hink
    split at hink
    · exact .inl (Option.some.inj hink).symm
    · split at hink
      · exact .inr (Option.some.inj hink).symm
      · exact absurd hink (by simp)
  | image | raster => exact absurd h (by simp [ofElement?])

theorem hasUnitAlphas {options : Options K} {e : Element K} {t : Sampler K}
    (he : e.state.Sound options) (h : ofElement? e = some t) : (Layer.vector t).HasUnitAlphas := by
  obtain ⟨harea, hstroke⟩ := inks_ofElement? h
  constructor
  · intro x hx
    rcases harea x hx with hink | hink
    · rw [hink]
      exact he.fillAlpha
    · rw [hink]
      exact he.strokeAlpha
  · intro x hx
    rw [hstroke x hx]
    exact he.strokeAlpha

end Sampler

namespace Layer
variable {resources : Resources K} {options : Options K} {e : Element K}

theorem ofImage_faded {s alpha : K} (hs : InUnit s) (halpha : InUnit alpha) (image : DecodedImage)
    (placement : Transform K) :
    ofImage image placement (s * alpha) = (ofImage image placement alpha).map (faded s) := by
  unfold ofImage
  rw [clampUnit_of_inUnit halpha, clampUnit_of_inUnit (inUnit_mul hs halpha)]
  split
  · rfl
  · split <;> rfl

theorem ofElement?_absorbMask (he : e.state.Sound options) :
    ofElement? resources options (e.mapState .absorbMask) =
      (ofElement? resources options e).map (Option.map (faded e.state.softMaskAlpha)) := by
  have hvector : ((Sampler.ofElement? (e.mapState .absorbMask)).map vector) =
      ((Sampler.ofElement? e).map vector).map (faded e.state.softMaskAlpha) := by
    rw [Sampler.ofElement?_absorbMask]
    cases Sampler.ofElement? e <;> rfl
  have hofImage : ∀ image placement,
      (ofImage image placement (e.state.softMaskAlpha * e.state.fillAlpha)).map some =
        ((ofImage image placement e.state.fillAlpha).map some).map
          (Option.map (faded e.state.softMaskAlpha)) := by
    intro image placement
    rw [ofImage_faded he.softMaskAlpha he.fillAlpha]
    cases ofImage image placement e.state.fillAlpha <;> rfl
  cases e with
  | path e =>
    have habsorbed : ofElement? resources options ((Element.path e).mapState .absorbMask) =
        if usesPattern e then .error (.unsupportedMask .patternPaint)
        else .ok ((Sampler.ofElement? ((Element.path e).mapState .absorbMask)).map vector) := rfl
    rw [habsorbed, hvector]
    simp only [ofElement?]
    split <;> rfl
  | text e => exact congrArg Except.ok hvector
  | image e =>
    simp only [Element.mapState, ofElement?]
    split
    · rename_i i _
      cases i.decode options.jpx with
      | error fault => rfl
      | ok image => exact hofImage image e.state.ctm
    · rfl
  | raster e =>
    simp only [Element.mapState, ofElement?]
    split
    · rfl
    · exact hofImage _ e.state.ctm

theorem ofImage_eq_ok {image : DecodedImage} {placement : Transform K} {alpha : K} {l : Layer K}
    (h : (ofImage image placement alpha).map some = .ok (some l)) :
    ∃ inverse, placement.inverse? = some inverse ∧ l = pixels image inverse (clampUnit alpha) := by
  unfold ofImage at h
  split at h
  · exact absurd h (by simp [Except.map])
  · split at h
    · exact absurd h (by simp [Except.map])
    · rename_i inverse hinverse
      exact ⟨inverse, hinverse, (Option.some.inj (Except.ok.inj h)).symm⟩

theorem ofElement?_cases {l : Layer K} (h : ofElement? resources options e = .ok (some l)) :
    (∃ t, Sampler.ofElement? e = some t ∧ l = vector t) ∨
      ∃ image inverse alpha, l = pixels image inverse (clampUnit alpha) := by
  have hvector : (Sampler.ofElement? e).map vector = some l →
      ∃ t, Sampler.ofElement? e = some t ∧ l = vector t := by
    intro hl
    obtain ⟨t, ht, rfl⟩ := Option.map_eq_some_iff.1 hl
    exact ⟨t, ht, rfl⟩
  have hpixels : ∀ image placement alpha,
      (ofImage image placement alpha).map some = .ok (some l) →
        ∃ image inverse alpha, l = pixels image inverse (clampUnit alpha) := by
    intro image placement alpha hl
    obtain ⟨inverse, -, rfl⟩ := ofImage_eq_ok hl
    exact ⟨image, inverse, alpha, rfl⟩
  cases e with
  | path e =>
    simp only [ofElement?] at h
    split at h
    · exact absurd h (by simp)
    · exact .inl (hvector (Except.ok.inj h))
  | text e => exact .inl (hvector (Except.ok.inj h))
  | image e =>
    simp only [ofElement?] at h
    split at h
    · split at h
      · exact absurd h (by simp)
      · exact .inr (hpixels _ _ _ h)
    · exact absurd h (by simp)
  | raster e =>
    simp only [ofElement?] at h
    split at h
    · exact absurd h (by simp)
    · exact .inr (hpixels _ _ _ h)

theorem hasUnitAlphas_ofElement? {l : Layer K} (he : e.state.Sound options)
    (h : ofElement? resources options e = .ok (some l)) : l.HasUnitAlphas := by
  rcases ofElement?_cases h with ⟨t, ht, rfl⟩ | ⟨image, inverse, alpha, rfl⟩
  · exact Sampler.hasUnitAlphas he ht
  · exact inUnit_clampUnit _

end Layer

namespace Element

/-- What compositing lays over the group at a point for an element: a colour and its coverage, if
there is any. -/
def paint? (resources : Resources K) (options : Options K) (p : Point K) (e : Element K) :
    Option (Rgb K × K) :=
  match Layer.ofElement? resources options e with
  | .ok (some layer) => Layer.paint? p (layer, e.state)
  | _ => none

variable (resources : Resources K) (options : Options K) (p : Point K)

/-- The constant of a mask taken into the alphas shows exactly where it is not one and something is
painted. -/
theorem paint?_absorbMask_eq_iff {e : Element K} (he : e.state.Sound options) :
    (e.mapState .absorbMask).paint? resources options p = e.paint? resources options p ↔
      e.state.softMaskAlpha = 1 ∨ e.paint? resources options p = none := by
  unfold paint?
  rw [Layer.ofElement?_absorbMask he, state_mapState]
  cases hlayer : Layer.ofElement? resources options e with
  | error fault => simp [Except.map]
  | ok layer =>
    cases layer with
    | none => simp [Except.map]
    | some l =>
      exact Layer.paint?_faded_eq_iff e.state.clipCoverage_absorbMask he.softMaskAlpha
        (Layer.hasUnitAlphas_ofElement? he hlayer) p

end Element

section Luminance

structure Rgb.InGamut (c : Rgb K) : Prop where
  r : InUnit c.r
  g : InUnit c.g
  b : InUnit c.b

theorem Rgb.inGamut_black : (black : Rgb K).InGamut := ⟨inUnit_zero, inUnit_zero, inUnit_zero⟩

theorem inUnit_complement {x : K} (h : InUnit x) : InUnit (1 - x) :=
  ⟨sub_nonneg.2 h.2, sub_le_self 1 h.1⟩

theorem ColorSpace.inGamut_toRgb (space : ColorSpace) (components : List K) :
    (space.toRgb components).InGamut := by
  have hchannel : ∀ i, InUnit (channel components i) := fun i => inUnit_clampUnit _
  have hgray : (grayToRgb components).InGamut := ⟨hchannel 0, hchannel 0, hchannel 0⟩
  have hrgb : (rgbToRgb components).InGamut := ⟨hchannel 0, hchannel 1, hchannel 2⟩
  have hcmyk : (cmykToRgb components).InGamut := by
    have hink : ∀ i, InUnit ((1 - channel components i) * (1 - channel components 3)) :=
      fun i => inUnit_mul (inUnit_complement (hchannel i)) (inUnit_complement (hchannel 3))
    exact ⟨hink 0, hink 1, hink 2⟩
  induction space with
  | gray => exact hgray
  | rgb => exact hrgb
  | cmyk => exact hcmyk
  | icc n =>
    match n with
    | 1 => exact hgray
    | 4 => exact hcmyk
    | 0 | 2 | 3 | n + 5 => exact hrgb
  | iccVia n space ih => exact ih
  | pattern => exact Rgb.inGamut_black
  | patternOver space ih => exact ih

theorem Rgb.InGamut.luminance {c : Rgb K} (h : c.InGamut) : InUnit c.luminance := by
  unfold Rgb.luminance
  have hr := h.r
  have hg := h.g
  have hb := h.b
  constructor
  · linarith [hr.1, hg.1, hb.1]
  · linarith [hr.2, hg.2, hb.2]

end Luminance

section ConstantValues
variable {options : Options K} (kind : MaskKind) (bbox : Rect K)

def MaskKind.ofFill (color : Color K) (alpha : K) : K :=
  match kind with
  | .alpha => alpha
  | .luminosity => clampUnit (color.luminance * alpha)

theorem MaskKind.ofFill_mul {s alpha : K} (hs : InUnit s) (halpha : InUnit alpha)
    (color : Color K) : kind.ofFill color (s * alpha) = s * kind.ofFill color alpha := by
  have hlum : InUnit color.luminance := (ColorSpace.inGamut_toRgb _ _).luminance
  cases kind with
  | alpha => rfl
  | luminosity =>
    unfold ofFill
    rw [clampUnit_of_inUnit (inUnit_mul hlum halpha),
      clampUnit_of_inUnit (inUnit_mul hlum (inUnit_mul hs halpha)), mul_left_comm]

def spansBBox (x y w h : K) (state : GraphicsState K) : Bool :=
  state.ctm.isIdentity && !state.fillsWithPattern &&
    (Rect.normalize ⟨x, y, x + w, y + h⟩).approxEq bbox bboxTolerance

theorem constantValue?_fill (x y w h : K) (rule : Option FillRule) (state : GraphicsState K) :
    constantValue? kind bbox [.path ⟨[.rect x y w h], .fill, rule, state⟩] =
      if spansBBox bbox x y w h state then
        some (kind.ofFill state.fillColor (clampUnit state.fillAlpha))
      else none := by
  cases kind <;> rfl

/-- A mask taken into the alpha of its one fill multiplies the constant value of a group. -/
theorem constantValue?_absorbMask {e : Element K} (he : e.state.Sound options) :
    constantValue? kind bbox [e.mapState .absorbMask] =
      (constantValue? kind bbox [e]).map (e.state.softMaskAlpha * ·) := by
  rcases constantValue?_cases kind bbox [e] with
    ⟨x, y, w, h, rule, state, hfill⟩ | ⟨hnone, hmapped⟩
  · obtain rfl := (List.cons.inj hfill).1
    have hs : InUnit state.softMaskAlpha := he.softMaskAlpha
    have halpha : InUnit state.fillAlpha := he.fillAlpha
    have habsorbed : constantValue? kind bbox
        [.path ⟨[.rect x y w h], .fill, rule, state.absorbMask⟩] =
          if spansBBox bbox x y w h state then
            some (state.softMaskAlpha * kind.ofFill state.fillColor (clampUnit state.fillAlpha))
          else none := by
      rw [clampUnit_of_inUnit halpha, ← kind.ofFill_mul hs halpha,
        ← clampUnit_of_inUnit (inUnit_mul hs halpha)]
      exact constantValue?_fill kind bbox x y w h rule state.absorbMask
    refine habsorbed.trans ?_
    rw [constantValue?_fill]
    split <;> rfl
  · have hmap : constantValue? kind bbox [e.mapState .absorbMask] = none := hmapped _
    rw [hnone, hmap]
    rfl

end ConstantValues

end ContentStream
