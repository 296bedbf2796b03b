import Mathlib
import ContentStream.Proofs.SoundStates

set_option autoImplicit false

namespace ContentStream
open Scalar
variable {K : Type} [Scalar K]

namespace GraphicsState

inductive Hides (g : GraphicsState K) (p : Point K) : Prop
  | uncovered (h : g.clipCoverage p = 0)
  | outside (h : g.clipBBox.admits p = false)
  | masked (m : Mask K) (hm : g.clipMask = some m) (h : m.sample p = 0)

theorem Hides.clipCoverage [LawfulScalar K] {g : GraphicsState K} {p : Point K}
    (h : g.Hides p) : g.clipCoverage p = 0 := by
  cases h with
  | uncovered h => exact h
  | outside h =>
    unfold GraphicsState.clipCoverage
    rw [h]
    rfl
  | masked m hm h =>
    unfold GraphicsState.clipCoverage
    split
    · rw [hm]
      dsimp only
      rw [h]
      exact LawfulScalar.ofByte_zero
    · rfl

theorem throughMask_clipCoverage (g : GraphicsState K) (m : Mask K) (p : Point K) :
    (g.throughMask m).clipCoverage p = g.clipCoverage p := rfl

end GraphicsState

/-- Pixels whose centres the clip of the raster hides are transparent, and none is missing. -/
structure RasterImage.RespectsClip (r : RasterImage K) : Prop where
  size : r.pixels.size = r.width * r.height * 4
  hidden : ∀ col < r.width, ∀ row < r.height,
    r.state.Hides (r.state.ctm.apply (Grid.center r.width r.height col row)) →
      r.pixel col row = .transparent

section Lawful
variable [LawfulScalar K] {options : Options K}

theorem Shading.pixel_uncovered (d : Shading K) (toShading : Transform K) (p : Point K) :
    d.pixel toShading 0 p = Rgba.transparent.toBytes := by
  unfold Shading.pixel
  rw [if_neg (LawfulScalar.not_lt_self 0)]

theorem Sampler.maskedPixel_uncovered (s : Sampler K) (x constant : K) (p : Point K) :
    s.maskedPixel (x * 0) constant p = Rgba.transparent.toBytes := by
  unfold Sampler.maskedPixel
  split
  · exact if_neg (LawfulScalar.not_pos_mul_zero x)
  · rfl

theorem RasterImage.Holds.respectsClip {r : RasterImage K}
    {pixelAt : Point K → Nat → Nat → List UInt8} (h : r.Holds pixelAt)
    (hhidden : ∀ p col row, r.state.clipCoverage p = 0 →
      pixelAt p col row = Rgba.transparent.toBytes) : r.RespectsClip := by
  refine ⟨h.size, ?_⟩
  intro col hcol row hrow hhides
  rw [h.pixel col hcol row hrow, hhidden _ col row hhides.clipCoverage]
  rfl

theorem Shading.rasterize?_respectsClip {d : Shading K} {toPage : Transform K} {region : Rect K}
    {path : Option (List (Subpath K) × FillRule)} {budget : Nat} {state : GraphicsState K}
    {r : RasterImage K} (h : d.rasterize? toPage region path budget state = some r) :
    r.RespectsClip := by
  obtain ⟨-, hstate, toShading, -, -, hpixels⟩ := Shading.rasterize?_spec h
  refine hpixels.respectsClip ?_
  intro p _ _ hcoverage
  have hclip : state.clipCoverage p = 0 := by
    rw [hstate] at hcoverage
    exact hcoverage
  rw [hclip, ite_self]
  exact d.pixel_uncovered toShading p

theorem Element.rasterizeMasked?_respectsClip {e : Element K} {r : RasterImage K}
    (h : e.rasterizeMasked? = some r) : r.RespectsClip := by
  obtain ⟨m, sampler, -, -, -, -, hstate, hpixels⟩ := Element.rasterizeMasked?_spec h
  refine hpixels.respectsClip ?_
  intro p _ _ hcoverage
  rw [hstate, GraphicsState.throughMask_clipCoverage] at hcoverage
  rw [hcoverage]
  exact sampler.maskedPixel_uncovered _ _ p

def clipping : Discipline K where
  entry _ := True
  state _ := True
  element e := ∀ r, e = .raster r → r.RespectsClip

theorem clipping_kept (options : Options K) : (clipping (K := K)).Kept options where
  initial _ _ := trivial
  update _ _ := trivial
  clip _ _ _ _ := trivial
  bound _ _ _ _ := trivial
  extGState _ _ := trivial
  unmask _ := trivial
  mask _ _ _ := trivial
  paint {g e} hpainted _ := by
    have he : ∀ r, e = .raster r → r.RespectsClip := by
      cases hpainted with
      | path | text | image => simp
      | shading d toPage region path r hr =>
        rintro _ ⟨⟩
        exact Shading.rasterize?_respectsClip hr
      | pattern d toPage region path r hr =>
        rintro _ ⟨⟩
        have hclip : r.RespectsClip := Shading.rasterize?_respectsClip hr
        refine ⟨hclip.size, ?_⟩
        -- Dropping the pattern keeps the clip and the pixels.
        intro col hcol row hrow hhides
        exact hclip.hidden col hcol row hrow (.uncovered hhides.clipCoverage)
    refine Interpreter.drawn_induction (fun e => ∀ r, e = .raster r → r.RespectsClip) he ?_
    rintro r hr _ ⟨⟩
    exact Element.rasterizeMasked?_respectsClip hr

namespace Interpreter

/-- Whatever content a run interprets, inside forms and soft mask groups too, the pixels that it
draws are all there, and transparent wherever their own clip hides their centres. -/
theorem comesTo_respectsClip (options : Options K) {resources : Resources K}
    {start u : Interpreter K} (hstart : Starts options resources start) {ts : List (Token K)}
    (h : ComesTo options ts start u) (r : RasterImage K) (hr : .raster r ∈ u.finish) :
    r.RespectsClip := by
  have hkept : (clipping (K := K)).Kept options := clipping_kept options
  have hentries : (clipping (K := K)).AllEntries resources := fun _ _ _ _ _ => trivial
  have hholds : clipping.Holds u := hkept.comesTo h (hkept.of_starts hentries hstart)
  exact hkept.finish hholds _ hr r rfl

/-- A square that is filled through a mask of its left half, under a clip of the lower half. -/
theorem comesTo_respectsClip_halfMasked :
    let resources : Resources Float := { Resources.empty with extGStates := [("G", halfMasked)] }
    let options : Options Float := { Options.standard with softMaskBudget := 2 }
    let ts := tokenize (Utf8.encode "0 0 2 1 re W n /G gs 0 0 2 2 re f")
    match (execute options ts (.ofPage resources options)).state.finish with
    | [.raster r] => r.pixel 0 0 = .transparent ∧ r.pixel 0 1 = ⟨0, 0, 0, 255⟩
    | _ => False := by
  intro resources options ts
  have hdrawn : (match (execute options ts (.ofPage resources options)).state.finish with
      | [.raster r] => decide (0 < r.width ∧ 0 < r.height ∧ r.state.clipCoverage
          (r.state.ctm.apply (Grid.center r.width r.height 0 0)) = 0 ∧
          r.pixel 0 1 = ⟨0, 0, 0, 255⟩)
      | _ => false) = true := by
    decide +kernel
  have hstart : Starts options resources (.ofPage resources options) := .page
  have hclip := comesTo_respectsClip options hstart
    (comesTo_execute options ts (.ofPage resources options))
  generalize (execute options ts (.ofPage resources options)).state.finish = drawn at hdrawn hclip
  split at hdrawn
  · rename_i r
    obtain ⟨hwidth, hheight, hcoverage, hpainted⟩ := of_decide_eq_true hdrawn
    have hr : r.RespectsClip := hclip r List.mem_cons_self
    exact ⟨hr.hidden 0 hwidth 0 hheight (.uncovered hcoverage), hpainted⟩
  · exact absurd hdrawn (by simp)

end Interpreter
end Lawful
end ContentStream
