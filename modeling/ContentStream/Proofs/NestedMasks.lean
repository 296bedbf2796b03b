import Mathlib
import ContentStream.Proofs.AbsorbedMasks
import ContentStream.Proofs.GroupImages

set_option autoImplicit false

/-!
# Soft masks inside soft mask groups

Content that is composited for a mask may put a mask of its own in force. Paths and texts that are
painted through a grid become pixels, which are left out where the grid is zero. Nothing else that
is painted under a nested mask is affected by it: compositing takes no notice of the soft mask of
an element's state, be it a constant or a grid.
-/
namespace ContentStream
open Scalar
variable {K : Type} [ExactField K]

/-- The value of the soft mask in force at a point. -/
def GraphicsState.maskValue (g : GraphicsState K) (p : Point K) : K :=
  match g.softMask with
  | none => g.softMaskAlpha
  | some m => ofByte (m.sample p) * g.softMaskAlpha

section Unmasked
variable (resources : Resources K) (options : Options K)

theorem Layer.ofElement?_clearSoftMask (e : Element K) :
    ofElement? resources options (e.mapState .clearSoftMask) = ofElement? resources options e := by
  cases e <;> rfl

theorem Element.paint?_clearSoftMask (p : Point K) (e : Element K) :
    (e.mapState .clearSoftMask).paint? resources options p = e.paint? resources options p := by
  unfold paint?
  rw [Layer.ofElement?_clearSoftMask, state_mapState]
  rfl

theorem constantValue?_clearSoftMask (kind : MaskKind) (bbox : Rect K) (es : List (Element K)) :
    constantValue? kind bbox (es.map (Element.mapState .clearSoftMask)) =
      constantValue? kind bbox es := by
  rcases constantValue?_cases kind bbox es with
    ⟨x, y, w, h, rule, state, rfl⟩ | ⟨hnone, hmapped⟩
  · rfl
  · rw [hnone, hmapped]

end Unmasked

section Masked
variable {options : Options K}

theorem ofByte_eq_zero {b : UInt8} (h : ofByte b = (0 : K)) : b = 0 := by
  unfold ofByte at h
  have hb : ((b.toNat : Nat) : K) = 0 := by simpa using h
  exact UInt8.toNat_inj.1 (Nat.cast_eq_zero.1 hb)

theorem Grid.cell?_lt {width height col row : Nat} {p : Point K} (hwidth : 0 < width)
    (hheight : 0 < height) (h : cell? width height p = some (col, row)) :
    col < width ∧ row < height := by
  unfold cell? at h
  split at h
  · obtain ⟨rfl, rfl⟩ := Prod.mk.inj (Option.some.inj h)
    have hcol : ∀ n, Nat.min n (width - 1) ≤ width - 1 := fun n => Nat.min_le_right n _
    have hrow : ∀ n, Nat.min n (height - 1) ≤ height - 1 := fun n => Nat.min_le_right n _
    exact ⟨(hcol _).trans_lt (Nat.sub_one_lt hwidth.ne'),
      (hrow _).trans_lt (Nat.sub_one_lt hheight.ne')⟩
  · exact absurd h (by simp)

theorem Sampler.maskedPixel_zero (t : Sampler K) (c constant : K) (p : Point K) :
    t.maskedPixel (ofByte 0 * c) constant p = Rgba.transparent.toBytes := by
  have hzero : ofByte 0 * c = 0 := by
    rw [LawfulScalar.ofByte_zero, zero_mul]
  unfold maskedPixel
  rw [hzero]
  split
  · exact if_neg (lt_irrefl 0)
  · rfl

theorem Layer.ofElement?_raster {resources : Resources K} {r : RasterImage K} {l : Layer K}
    (h : ofElement? resources options (.raster r) = .ok (some l)) :
    ∃ inverse, r.state.ctm.inverse? = some inverse ∧
      l = pixels ⟨r.width, r.height, r.pixels⟩ inverse (clampUnit r.state.fillAlpha) := by
  simp only [ofElement?] at h
  split at h
  · exact absurd h (by simp)
  · exact ofImage_eq_ok h

theorem Layer.paint?_transparent {image : DecodedImage} {inverse : Transform K} {p : Point K}
    (h : ∀ col row, Grid.cell? image.width image.height (inverse.apply p) = some (col, row) →
      image.pixel col row = .transparent) (alpha : K) (state : GraphicsState K) :
    paint? p (pixels image inverse alpha, state) = none := by
  unfold paint?
  simp only [sample?]
  cases hcell : Grid.cell? image.width image.height (inverse.apply p) with
  | none => rfl
  | some cell =>
    simp only [Option.map_some, Option.bind_some, h cell.1 cell.2 hcell, Rgba.transparent]
    rw [LawfulScalar.ofByte_zero, zero_mul, zero_mul]
    exact if_neg (lt_irrefl 0)

theorem Mask.get_of_sample {m : Mask K} {inverse : Transform K} {p : Point K} {col row : Nat}
    (hinverse : m.matrix.inverse? = some inverse)
    (hcell : Grid.cell? m.width m.height (inverse.apply p) = some (col, row)) :
    m.get col row = m.sample p := by
  unfold sample
  simp only [hinverse, hcell]

theorem Element.paint?_rasterizeMasked {resources : Resources K} {e : Element K}
    {r : RasterImage K} {p : Point K} (he : e.state.Sound options)
    (hr : e.rasterizeMasked? = some r) (hzero : e.state.maskValue p = 0) :
    (Element.raster r).paint? resources options p = none := by
  obtain ⟨m, sampler, hm, -, hwidth, hheight, hstate, hpixels⟩ := rasterizeMasked?_spec hr
  obtain ⟨hfills, hconstant⟩ := he.softMask m hm
  have hsample : m.sample p = 0 := by
    unfold GraphicsState.maskValue at hzero
    rw [hm] at hzero
    dsimp only at hzero
    rw [hconstant, mul_one] at hzero
    exact ofByte_eq_zero hzero
  unfold paint?
  cases hlayer : Layer.ofElement? resources options (.raster r) with
  | error fault => rfl
  | ok layer =>
    cases layer with
    | none => rfl
    | some l =>
      obtain ⟨inverse, hinverse, rfl⟩ := Layer.ofElement?_raster hlayer
      refine Layer.paint?_transparent ?_ _ _
      intro col row hcell
      rw [hstate] at hinverse
      dsimp only at hcell
      rw [hwidth, hheight] at hcell
      have hget : m.get col row = 0 := (Mask.get_of_sample hinverse hcell).trans hsample
      obtain ⟨hcol, hrow⟩ := Grid.cell?_lt hfills.fits.width_pos hfills.fits.height_pos hcell
      rw [← hwidth] at hcol
      rw [← hheight] at hrow
      refine (hpixels.pixel col hcol row hrow).trans ?_
      rw [hget, Sampler.maskedPixel_zero]
      rfl

theorem Element.paint?_of_sampler {resources : Resources K} {e : Element K} {p : Point K}
    (hmasked : Interpreter.isMasked e = true) (h : Sampler.ofElement? e = none) :
    e.paint? resources options p = none := by
  unfold paint?
  cases e with
  | path e =>
    by_cases hpattern : Layer.usesPattern e = true
    · simp only [Layer.ofElement?, if_pos hpattern]
    · simp only [Layer.ofElement?, if_neg hpattern, h, Option.map_none]
  | text e => simp only [Layer.ofElement?, h, Option.map_none]
  | image | raster => exact absurd hmasked (by simp [Interpreter.isMasked])

omit [ExactField K] in
theorem Interpreter.exists_softMask {e : Element K} (h : isMasked e = true) :
    ∃ m, e.state.softMask = some m := by
  cases e with
  | path e =>
    simp only [isMasked, Bool.and_eq_true] at h
    exact Option.isSome_iff_exists.1 h.1
  | text e => exact Option.isSome_iff_exists.1 h
  | image | raster => exact absurd h (by simp [isMasked])

omit [ExactField K] in
theorem Mask.Fills.isConsistent {m : Mask K} {budget : Nat} (h : m.Fills budget) :
    m.isConsistent = true := by
  have hwidth : m.width ≠ 0 := h.fits.width_pos.ne'
  have hheight : m.height ≠ 0 := h.fits.height_pos.ne'
  simp [Mask.isConsistent, hwidth, hheight, h.size]

theorem Element.paint?_drawn {resources : Resources K} {e : Element K} {p : Point K}
    (he : e.state.Sound options) (hmasked : Interpreter.isMasked e = true)
    (hzero : e.state.maskValue p = 0) :
    (Interpreter.drawn e).paint? resources options p = none := by
  obtain ⟨m, hm⟩ := Interpreter.exists_softMask hmasked
  have hsome := rasterizeMasked?_isSome hm (he.softMask m hm).1.isConsistent
  unfold Interpreter.drawn
  rw [if_pos hmasked]
  cases hr : e.rasterizeMasked? with
  | some r => exact paint?_rasterizeMasked he hr hzero
  | none =>
    rw [hr] at hsome
    have hnone : (Sampler.ofElement? e).isSome = false := hsome.symm
    exact paint?_of_sampler hmasked (Option.not_isSome_iff_eq_none.1 (by simp [hnone]))

end Masked

namespace SoftMaskGroup
variable {options : Options K} {f : GraphicsState K → GraphicsState K}
  {F : GraphicsState K → Layer K → Layer K}

theorem composite_mapState (g : SoftMaskGroup K) (bbox : Rect K) {es : List (Element K)}
    (h : ∀ e ∈ es, Layer.ofElement? g.resources options (e.mapState f) =
      (Layer.ofElement? g.resources options e).map (Option.map (F e.state)))
    (hpaint : ∀ e ∈ es, ∀ p, (e.mapState f).paint? g.resources options p =
      e.paint? g.resources options p) :
    g.composite bbox (es.map (Element.mapState f)) options = g.composite bbox es options := by
  unfold composite
  split
  · rfl
  rw [Layer.ofElements_mapState h]
  cases hlayers : Layer.ofElements g.resources options es with
  | error fault => rfl
  | ok layers =>
    have hbytes : ∀ width height start,
        g.alphaBytes bbox width height start (layers.map fun l => (F l.2 l.1, f l.2)) =
          g.alphaBytes bbox width height start layers := by
      intro width height start
      have hpixel : ∀ p, (layers.map fun l => (F l.2 l.1, f l.2)).foldl
          (Accumulated.addLayer g.knockout p) start =
            layers.foldl (Accumulated.addLayer g.knockout p) start := by
        intro p
        rw [List.foldl_map]
        refine List.foldl_ext _ _ _ ?_
        rintro acc ⟨l, state⟩ hl
        obtain ⟨e, he, hlayer, hstate⟩ := Layer.mem_ofElements hlayers hl
        obtain rfl : state = e.state := hstate
        have hsame : Layer.paint? p (F e.state l, f e.state) = Layer.paint? p (l, e.state) := by
          have heq := hpaint e he p
          unfold Element.paint? at heq
          rw [h e he, hlayer, Element.state_mapState] at heq
          exact heq
        rw [Accumulated.addLayer_eq, Accumulated.addLayer_eq, hsame]
      unfold alphaBytes
      simp only [hpixel]
    simp only [Except.map, hbytes]

/-- Soft masks in the states of the elements make no difference to the value of a group. -/
theorem valueOf_clearSoftMask (g : SoftMaskGroup K) (ctm : Transform K) (es : List (Element K)) :
    g.valueOf ctm options (es.map (Element.mapState .clearSoftMask)) =
      g.valueOf ctm options es := by
  have hcomposite : g.composite g.bbox.normalize (es.map (Element.mapState .clearSoftMask)) options =
      g.composite g.bbox.normalize es options := by
    refine g.composite_mapState (F := fun _ l => l) _ ?_ ?_
    · intro e _
      rw [Layer.ofElement?_clearSoftMask]
      cases Layer.ofElement? g.resources options e with
      | error fault => rfl
      | ok layer => cases layer <;> rfl
    · intro e _ p
      exact e.paint?_clearSoftMask g.resources options p
  unfold valueOf
  dsimp only
  rw [constantValue?_clearSoftMask, hcomposite]

theorem composite_absorbMask (g : SoftMaskGroup K) (bbox : Rect K) {es : List (Element K)}
    (hes : ∀ e ∈ es, e.state.Sound options)
    (h : ∀ e ∈ es, ∀ p, e.state.softMaskAlpha = 1 ∨ e.paint? g.resources options p = none) :
    g.composite bbox (es.map (Element.mapState .absorbMask)) options =
      g.composite bbox es options := by
  refine g.composite_mapState (F := fun state => Layer.faded state.softMaskAlpha) bbox ?_ ?_
  · exact fun e he => Layer.ofElement?_absorbMask (hes e he)
  · intro e he p
    exact (e.paint?_absorbMask_eq_iff g.resources options p (hes e he)).2 (h e he p)

end SoftMaskGroup

def painting (options : Options K) : Discipline K where
  entry := ExtGState.HasNumbers
  state := GraphicsState.Sound options
  element e := ∃ painted g, g.Sound options ∧ Painted options g painted ∧
    e = Interpreter.drawn painted

theorem painting_kept (options : Options K) : (painting options).Kept options where
  initial := (soundness_kept options).initial
  update := (soundness_kept options).update
  clip := (soundness_kept options).clip
  bound := (soundness_kept options).bound
  extGState := (soundness_kept options).extGState
  unmask := (soundness_kept options).unmask
  mask := (soundness_kept options).mask
  paint {g e} hpainted hg := ⟨e, g, hg, hpainted, rfl⟩

theorem painting_allEntries (options : Options K) (resources : Resources K) :
    (painting options).AllEntries resources := by
  intro _ _ e _ _
  exact ⟨fun a _ => isNaN_eq_false a, fun a _ => isNaN_eq_false a⟩

theorem painting_holds (options : Options K) (resources : Resources K) (depth : Nat)
    (ts : List (Token K)) : (painting options).Holds
      (Interpreter.execute options ts (.ofGroup resources depth)).state := by
  have hkept := painting_kept options
  have hentries := painting_allEntries options resources
  exact hkept.execute ts _ (hkept.of_starts hentries (.group depth))

theorem SoftMaskGroup.valueOf_eq_constant_iff (options : Options K) (g : SoftMaskGroup K)
    (ctm : Transform K) (es : List (Element K)) (v : K) :
    g.valueOf ctm options es = .ok (.constant v) ↔
      constantValue? g.kind g.bbox.normalize es = some v := by
  unfold valueOf
  dsimp only
  split
  · rename_i hconstant
    rw [hconstant, Except.ok.injEq, MaskValue.constant.injEq, Option.some.injEq]
  · rename_i hnone
    rw [hnone]
    split <;> simp

/-- A group with a constant value has one element, and the mask of that taken into its alphas
multiplies the value. -/
theorem SoftMaskGroup.valueOf_absorbMask {options : Options K} {g : SoftMaskGroup K}
    {ctm : Transform K} {es : List (Element K)} {v : K}
    (hes : ∀ e ∈ es, e.state.Sound options)
    (h : g.valueOf ctm options es = .ok (.constant v)) :
    ∃ e, es = [e] ∧ g.valueOf ctm options (es.map (Element.mapState .absorbMask)) =
      .ok (.constant (e.state.softMaskAlpha * v)) := by
  have hconstant := (g.valueOf_eq_constant_iff options ctm es v).1 h
  rcases constantValue?_cases g.kind g.bbox.normalize es with
    ⟨x, y, w, height, rule, state, rfl⟩ | ⟨hnone, -⟩
  · refine ⟨_, rfl, (g.valueOf_eq_constant_iff options ctm _ _).2 ?_⟩
    have habsorbed := constantValue?_absorbMask g.kind g.bbox.normalize
      (hes _ (List.mem_singleton_self _))
    rw [hconstant] at habsorbed
    exact habsorbed
  · rw [hnone] at hconstant
    exact absurd hconstant (by simp)

/-- What is painted under a nested mask leaves nothing at a point where the mask is zero, exactly if
it is painted through a grid, or the mask is not zero there, or nothing would be left without a mask
either. A mask of a constant value has the effect of alphas multiplied by that exactly where it is
one or nothing is painted, and on a constant value of the group exactly if it is one or that is
zero: the value of the group is what it is without any nested masks. -/
theorem SoftMaskGroup.nestedMask_iff (options : Options K) (g : SoftMaskGroup K) (depth : Nat) :
    let drawn := (Interpreter.execute options (tokenize g.content)
      (.ofGroup g.resources depth)).state.finish
    let paint := fun (p : Point K) (e : Element K) => e.paint? g.resources options p
    (∀ e ∈ drawn, ∃ painted state, state.Sound options ∧ Painted options state painted ∧
      e = Interpreter.drawn painted) ∧
    (∀ painted state, state.Sound options → Painted options state painted → ∀ p,
      ((painted.state.maskValue p = 0 → paint p (Interpreter.drawn painted) = none) ↔
        Interpreter.isMasked painted = true ∨ painted.state.maskValue p ≠ 0 ∨
          paint p (painted.mapState .clearSoftMask) = none)) ∧
    (∀ e ∈ drawn, ∀ p, paint p (e.mapState .absorbMask) = paint p e ↔
      e.state.softMaskAlpha = 1 ∨ paint p e = none) ∧
    ((∀ e ∈ drawn, ∀ p, e.state.softMaskAlpha = 1 ∨ paint p e = none) → ∀ bbox,
      g.composite bbox (drawn.map (Element.mapState .absorbMask)) options =
        g.composite bbox drawn options) ∧
    (∀ ctm v, g.valueOf ctm options drawn = .ok (.constant v) → ∃ e, drawn = [e] ∧
      (g.valueOf ctm options (drawn.map (Element.mapState .absorbMask)) =
          g.valueOf ctm options drawn ↔ e.state.softMaskAlpha = 1 ∨ v = 0)) ∧
    ∀ ctm, g.valueOf ctm options (drawn.map (Element.mapState .clearSoftMask)) =
      g.valueOf ctm options drawn := by
  intro drawn paint
  have hpaintings : ∀ e ∈ drawn, ∃ painted state, state.Sound options ∧
      Painted options state painted ∧ e = Interpreter.drawn painted :=
    (painting_kept options).finish (painting_holds options g.resources depth _)
  have hsound : ∀ e ∈ drawn, e.state.Sound options := by
    intro e he
    obtain ⟨painted, state, hstate, hpainted, rfl⟩ := hpaintings e he
    exact (hpainted.sound hstate).drawn.state
  refine ⟨hpaintings, ?_, ?_, ?_, ?_, fun ctm => g.valueOf_clearSoftMask ctm drawn⟩
  · intro painted state hstate hpainted p
    cases hmasked : Interpreter.isMasked painted with
    | true =>
      refine ⟨fun _ => .inl rfl, fun _ hzero => ?_⟩
      exact Element.paint?_drawn (hpainted.sound hstate).state hmasked hzero
    | false =>
      have hdrawn : Interpreter.drawn painted = painted := by
        unfold Interpreter.drawn
        rw [hmasked]
        rfl
      have hclear : paint p (painted.mapState .clearSoftMask) = paint p painted :=
        painted.paint?_clearSoftMask g.resources options p
      rw [hdrawn, hclear]
      simp only [Bool.false_eq_true, false_or]
      exact imp_iff_not_or
  · intro e he p
    exact e.paint?_absorbMask_eq_iff g.resources options p (hsound e he)
  · intro h bbox
    exact g.composite_absorbMask bbox hsound h
  · intro ctm v hvalue
    obtain ⟨e, he, habsorbed⟩ := valueOf_absorbMask hsound hvalue
    refine ⟨e, he, ?_⟩
    rw [habsorbed, hvalue, Except.ok.injEq, MaskValue.constant.injEq]
    exact mul_left_eq_self₀

def SoftMaskGroup.withNested (nested : SoftMaskGroup ℚ) (content : String) : SoftMaskGroup ℚ :=
  { squareGroup content with
    resources := { Resources.empty with
      extGStates := [("N", { ExtGState.empty with softMask := some (.group nested) })]
      xObjects := [("I", .image ⟨1, 1, 8, .gray, .none, #[128], none⟩)] } }

/-- A square under a nested grid is left out in the right half, and painted in the left one. -/
theorem SoftMaskGroup.nestedMask_iff_leftHalf :
    let g := withNested (squareGroup "0 0 1 2 re f") "/N gs 0 0 2 2 re f"
    let state := (Interpreter.execute coarse (tokenize (Utf8.encode "/N gs"))
      (.ofGroup g.resources 1)).state.state
    let square : Element ℚ := .path ⟨[.rect 0 0 2 2], .fill, some .nonZero, state⟩
    state.Sound coarse ∧ state.maskValue ⟨3 / 2, 1 / 2⟩ = 0 ∧
      (Interpreter.drawn square).paint? g.resources coarse ⟨3 / 2, 1 / 2⟩ = none ∧
      ((Interpreter.drawn square).paint? g.resources coarse ⟨1 / 2, 1 / 2⟩).isSome = true := by
  intro g state square
  have hsound : state.Sound coarse :=
    (painting_holds coarse g.resources 1 (tokenize (Utf8.encode "/N gs"))).current
  have hzero : state.maskValue ⟨3 / 2, 1 / 2⟩ = 0 := by decide +kernel
  have hmasked : Interpreter.isMasked square = true := by decide +kernel
  obtain ⟨-, hnothing, -⟩ := nestedMask_iff coarse g 1
  have hright := (hnothing square state hsound (.path _ (.inl rfl)) ⟨3 / 2, 1 / 2⟩).2 (.inl hmasked)
  exact ⟨hsound, hzero, hright hzero, by decide +kernel⟩

/-- A fill under a nested mask of value zero counts in full, and so does the part of an image where
a nested grid is zero. -/
theorem SoftMaskGroup.nestedMask_ignored :
    (let black : SoftMaskGroup ℚ := { squareGroup "0 g 0 0 2 2 re f" with kind := .luminosity }
     let g := withNested black "/N gs 0 0 2 2 re f"
     let drawn := (Interpreter.execute coarse (tokenize g.content)
       (.ofGroup g.resources 1)).state.finish
     drawn.map (fun e => e.state.softMaskAlpha) = [0] ∧
     g.evaluate coarse .identity 1 = .ok (.constant 1) ∧
     g.valueOf .identity coarse (drawn.map (Element.mapState .absorbMask)) = .ok (.constant 0)) ∧
    (let g := withNested (squareGroup "0 0 1 2 re f") "/N gs 2 0 0 2 0 0 cm /I Do"
     let drawn := (Interpreter.execute coarse (tokenize g.content)
       (.ofGroup g.resources 1)).state.finish
     let p : Point ℚ := ⟨3 / 2, 1 / 2⟩
     drawn.map (fun e => e.state.maskValue p) = [0] ∧
     drawn.map (fun e => (e.paint? g.resources coarse p).isSome) = [true]) := by
  refine ⟨⟨?_, ?_, ?_⟩, ?_, ?_⟩
  · decide +kernel
  · decide +kernel
  · decide +kernel
  · decide +kernel
  · decide +kernel

end ContentStream
