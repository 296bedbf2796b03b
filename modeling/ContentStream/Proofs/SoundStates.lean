import Mathlib
import ContentStream.Proofs.Invariants
import ContentStream.Proofs.Pixels
import ContentStream.Proofs.ResourceTree
import ContentStream.Proofs.ScalarLaws

set_option autoImplicit false

namespace ContentStream
open Scalar
variable {K : Type}

structure Mask.Fills (m : Mask K) (budget : Nat) : Prop where
  fits : Grid.Fits budget m.width m.height
  size : m.alpha.size = m.width * m.height

def Mask.IsBinary (m : Mask K) : Prop := ∀ b ∈ m.alpha, b = 0 ∨ b = 255

structure RasterImage.Fills (options : Options K) (r : RasterImage K) : Prop where
  fits : Grid.Fits options.shadingBudget r.width r.height ∨
    Grid.Fits options.softMaskBudget r.width r.height
  size : r.pixels.size = 4 * r.width * r.height

variable [Scalar K]

structure GraphicsState.Sound (options : Options K) (g : GraphicsState K) : Prop where
  softMask : ∀ m, g.softMask = some m → m.Fills options.softMaskBudget ∧ g.softMaskAlpha = 1
  clipMask : ∀ m, g.clipMask = some m → m.Fills options.clipBudget ∧ m.IsBinary
  fillAlpha : InUnit g.fillAlpha
  strokeAlpha : InUnit g.strokeAlpha
  softMaskAlpha : InUnit g.softMaskAlpha

structure Element.Sound (options : Options K) (e : Element K) : Prop where
  state : e.state.Sound options
  raster : ∀ r, e = .raster r → r.Fills options

structure ExtGState.HasNumbers (e : ExtGState K) : Prop where
  fillAlpha : ∀ a ∈ e.fillAlpha, isNaN a = false
  strokeAlpha : ∀ a ∈ e.strokeAlpha, isNaN a = false

def soundness (options : Options K) : Discipline K where
  entry := ExtGState.HasNumbers
  state := GraphicsState.Sound options
  element := Element.Sound options

namespace Mask

theorem sample_binary {m : Mask K} (hm : m.IsBinary) (p : Point K) :
    m.sample p = 0 ∨ m.sample p = 255 := by
  unfold sample
  split
  · exact .inl rfl
  · split
    · exact .inl rfl
    · rename_i col row _
      unfold get
      rw [Array.getD_eq_getD_getElem?]
      cases hget : m.alpha[row * m.width + col]? with
      | none => exact .inl rfl
      | some b => exact hm b (Array.mem_of_getElem? hget)

theorem fills_ofRegion {budget width height : Nat} (hfits : Grid.Fits budget width height)
    (bbox : Rect K) (inside : Point K → Bool) (previous : Option (Mask K)) :
    (ofRegion width height bbox inside previous).Fills budget where
  fits := hfits
  size := by
    change (Grid.tabulate width height _).toArray.size = width * height
    rw [List.size_toArray, Grid.length_tabulate]

theorem binary_ofRegion (width height : Nat) (bbox : Rect K) (inside : Point K → Bool)
    {previous : Option (Mask K)} (hprevious : ∀ m, previous = some m → m.IsBinary) :
    (ofRegion width height bbox inside previous).IsBinary := by
  intro b hb
  change b ∈ (Grid.tabulate width height _).toArray at hb
  rw [List.mem_toArray] at hb
  obtain ⟨i, -, rfl⟩ := List.mem_map.1 hb
  dsimp only
  split
  · split
    · exact .inr rfl
    · exact sample_binary (hprevious _ rfl) _
  · exact .inl rfl

theorem ofClip?_sound {segments : List (Segment K)} {ctm : Transform K} {rule : FillRule}
    {bbox : Rect K} {previous : Option (Mask K)} {budget : Nat} {m : Mask K}
    (hprevious : ∀ m, previous = some m → m.IsBinary)
    (h : ofClip? segments ctm rule bbox previous budget = some m) :
    m.Fills budget ∧ m.IsBinary := by
  unfold ofClip? at h
  split at h
  · obtain ⟨⟨width, height⟩, hsize, rfl⟩ := Option.map_eq_some_iff.1 h
    exact ⟨fills_ofRegion (Grid.fits_of_size? hsize) _ _ _, binary_ofRegion _ _ _ _ hprevious⟩
  · exact absurd h (by simp)

end Mask

theorem SoftMaskGroup.fills_of_composite {g : SoftMaskGroup K} {bbox : Rect K}
    {elements : List (Element K)} {options : Options K} {width height : Nat}
    {bytes : Array UInt8} (h : g.composite bbox elements options = .ok (width, height, bytes)) :
    Grid.Fits options.softMaskBudget width height ∧ bytes.size = width * height := by
  obtain ⟨hsize, layers, backdrop, -, -, rfl⟩ := composite_eq_ok_iff.1 h
  refine ⟨Grid.fits_of_size? hsize, ?_⟩
  rw [alphaBytes, List.size_toArray, Grid.length_tabulate]

section Lawful
variable [LawfulScalar K] {options : Options K}

theorem inUnit_constantValue {kind : MaskKind} {bbox : Rect K} {elements : List (Element K)}
    {alpha : K} (h : constantValue? kind bbox elements = some alpha) : InUnit alpha := by
  unfold constantValue? at h
  split at h
  · dsimp only at h
    split at h
    · cases kind with
      | alpha =>
        obtain rfl := Option.some.inj h
        exact inUnit_clampUnit _
      | luminosity =>
        obtain rfl := Option.some.inj h
        exact inUnit_clampUnit _
    · exact absurd h (by simp)
  · exact absurd h (by simp)

theorem SoftMaskGroup.valueOf_sound {g : SoftMaskGroup K} {ctm : Transform K}
    {elements : List (Element K)} {value : MaskValue K}
    (h : g.valueOf ctm options elements = .ok value) :
    (∃ alpha, value = .constant alpha ∧ InUnit alpha) ∨
      ∃ m : Mask K, value = .grid m ∧ m.Fills options.softMaskBudget := by
  unfold valueOf at h
  dsimp only at h
  split at h
  · rename_i hconstant
    exact .inl ⟨_, (Except.ok.inj h).symm, inUnit_constantValue hconstant⟩
  · split at h
    · exact absurd h (by simp)
    · rename_i hgrid
      obtain ⟨hfits, hsize⟩ := fills_of_composite hgrid
      exact .inr ⟨_, (Except.ok.inj h).symm, hfits, hsize⟩

namespace GraphicsState.Sound
variable {g : GraphicsState K}

theorem initial (ctm : Transform K) (r : Rect K) :
    Sound options { GraphicsState.initial with ctm := ctm, clipBBox := r } where
  softMask := by simp [GraphicsState.initial]
  clipMask := by simp [GraphicsState.initial]
  fillAlpha := inUnit_one
  strokeAlpha := inUnit_one
  softMaskAlpha := inUnit_one

omit [LawfulScalar K] in
theorem congr {h : GraphicsState K} (hg : g.Sound options) (hsame : g.SameCoverage h) :
    h.Sound options where
  softMask := by rw [hsame.softMask, hsame.softMaskAlpha]; exact hg.softMask
  clipMask := by rw [hsame.clipMask]; exact hg.clipMask
  fillAlpha := by rw [hsame.fillAlpha]; exact hg.fillAlpha
  strokeAlpha := by rw [hsame.strokeAlpha]; exact hg.strokeAlpha
  softMaskAlpha := by rw [hsame.softMaskAlpha]; exact hg.softMaskAlpha

omit [LawfulScalar K] in
theorem placed (hg : g.Sound options) (ctm : Transform K) (r : Rect K) :
    Sound options { g with ctm := ctm, clipBBox := r } :=
  ⟨hg.softMask, hg.clipMask, hg.fillAlpha, hg.strokeAlpha, hg.softMaskAlpha⟩

omit [LawfulScalar K] in
theorem clip (hg : g.Sound options) (segments : List (Segment K)) (rule : FillRule) :
    (Interpreter.clipState options segments rule g).Sound options := by
  unfold Interpreter.clipState
  dsimp only
  split
  · exact hg
  · refine ⟨hg.softMask, ?_, hg.fillAlpha, hg.strokeAlpha, hg.softMaskAlpha⟩
    intro m hm
    dsimp only at hm
    split at hm
    · exact Mask.ofClip?_sound (fun m h => (hg.clipMask m h).2) hm
    · exact hg.clipMask m hm

theorem extGState (hg : g.Sound options) {e : ExtGState K} (he : e.HasNumbers) :
    (g.applyExtGState e).Sound options where
  softMask := hg.softMask
  clipMask := hg.clipMask
  fillAlpha := by
    change InUnit ((e.fillAlpha.map _).getD g.fillAlpha)
    cases halpha : e.fillAlpha with
    | none => exact hg.fillAlpha
    | some a => exact inUnit_clamp (he.fillAlpha a halpha)
  strokeAlpha := by
    change InUnit ((e.strokeAlpha.map _).getD g.strokeAlpha)
    cases halpha : e.strokeAlpha with
    | none => exact hg.strokeAlpha
    | some a => exact inUnit_clamp (he.strokeAlpha a halpha)
  softMaskAlpha := hg.softMaskAlpha

theorem unmask (hg : g.Sound options) : g.clearSoftMask.Sound options where
  softMask := by simp [clearSoftMask]
  clipMask := hg.clipMask
  fillAlpha := hg.fillAlpha
  strokeAlpha := hg.strokeAlpha
  softMaskAlpha := inUnit_one

theorem mask (hg : g.Sound options) {group : SoftMaskGroup K} {ctm : Transform K}
    {elements : List (Element K)} {value : MaskValue K}
    (hvalue : group.valueOf ctm options elements = .ok value) :
    (g.applyMaskValue value).Sound options := by
  rcases SoftMaskGroup.valueOf_sound hvalue with ⟨alpha, rfl, halpha⟩ | ⟨m, rfl, hm⟩
  · exact ⟨by simp [applyMaskValue], hg.clipMask, hg.fillAlpha, hg.strokeAlpha, halpha⟩
  · refine ⟨?_, hg.clipMask, hg.fillAlpha, hg.strokeAlpha, inUnit_one⟩
    intro m' hm'
    obtain rfl := Option.some.inj hm'
    exact ⟨hm, rfl⟩

theorem throughMask (hg : g.Sound options) (m : Mask K) : (g.throughMask m).Sound options := by
  refine congr ?_ (.clearFillPattern _)
  exact ⟨by simp [clearSoftMask], hg.clipMask, inUnit_one, inUnit_one, inUnit_one⟩

end GraphicsState.Sound

omit [LawfulScalar K] in
theorem RasterImage.Holds.fills {r : RasterImage K} {pixelAt : Point K → Nat → Nat → List UInt8}
    (h : r.Holds pixelAt) (hfits : Grid.Fits options.shadingBudget r.width r.height ∨
      Grid.Fits options.softMaskBudget r.width r.height) : r.Fills options :=
  ⟨hfits, by rw [h.size, Nat.mul_comm, Nat.mul_assoc]⟩

namespace Painted
variable {g : GraphicsState K} {e : Element K}

omit [LawfulScalar K] in
theorem sameCoverage (h : Painted options g e) : g.SameCoverage e.state := by
  cases h with
  | path e he =>
    change g.SameCoverage e.state
    rcases he with he | he
    · rw [he]
      exact ⟨rfl, rfl, rfl, rfl, rfl, rfl⟩
    · rw [he]
      exact .clearFillPattern g
  | text e he | image e he =>
    change g.SameCoverage e.state
    rw [he]
    exact ⟨rfl, rfl, rfl, rfl, rfl, rfl⟩
  | shading d toPage region path r hr | pattern d toPage region path r hr =>
    obtain ⟨-, hstate, -⟩ := Shading.rasterize?_spec hr
    have hsame : g.SameCoverage r.state := by
      rw [hstate]
      exact ⟨rfl, rfl, rfl, rfl, rfl, rfl⟩
    exact ⟨hsame.clipBBox, hsame.clipMask, hsame.softMask, hsame.softMaskAlpha, hsame.fillAlpha,
      hsame.strokeAlpha⟩

omit [LawfulScalar K] in
theorem sound (h : Painted options g e) (hg : g.Sound options) : e.Sound options := by
  refine ⟨hg.congr h.sameCoverage, ?_⟩
  cases h with
  | path | text | image => simp
  | shading d toPage region path r hr =>
    obtain ⟨hfits, -, toShading, -, -, hpixels⟩ := Shading.rasterize?_spec hr
    rintro _ ⟨⟩
    exact hpixels.fills (.inl hfits)
  | pattern d toPage region path r hr =>
    obtain ⟨hfits, -, toShading, -, -, hpixels⟩ := Shading.rasterize?_spec hr
    rintro _ ⟨⟩
    exact ⟨.inl hfits, (hpixels.fills (.inl hfits)).size⟩

end Painted

theorem Element.Sound.drawn {e : Element K} (he : e.Sound options) :
    (Interpreter.drawn e).Sound options := by
  refine Interpreter.drawn_induction (·.Sound options) he fun r hr => ?_
  obtain ⟨m, sampler, hm, -, hwidth, hheight, hstate, hpixels⟩ :=
    Element.rasterizeMasked?_spec hr
  refine ⟨?_, ?_⟩
  · exact (congrArg (GraphicsState.Sound options) hstate).mpr (he.state.throughMask m)
  · rintro _ ⟨⟩
    have hfits : Grid.Fits options.softMaskBudget r.width r.height := by
      rw [hwidth, hheight]
      exact (he.state.softMask m hm).1.fits
    exact hpixels.fills (.inr hfits)

theorem soundness_kept (options : Options K) : (soundness options).Kept options where
  initial ctm r := .initial ctm r
  update hsame hg := hg.congr hsame
  clip segments rule _ hg := hg.clip segments rule
  bound ctm _ _ hg := hg.placed ctm _
  extGState he hg := hg.extGState he
  unmask hg := hg.unmask
  mask hvalue _ hg := hg.mask hvalue
  paint hpainted hg := (hpainted.sound hg).drawn

namespace Interpreter

/-- Wherever an execution comes through, inside forms and soft mask groups too, each state on the
stack and each element is sound. The alphas of the resources only have to be numbers. -/
theorem comesTo_sound (options : Options K) {resources : Resources K}
    (hnumbers : ∀ t name e, resources.Nests t → t.extGState? name = some e → e.HasNumbers)
    {start u : Interpreter K} (hstart : Starts options resources start) {ts : List (Token K)}
    (h : ComesTo options ts start u) :
    (∀ g ∈ u.stack.states, g.Sound options) ∧ (∀ e ∈ u.elements.toList, e.Sound options) ∧
      ∀ e ∈ u.finish, e.Sound options := by
  have hkept := soundness_kept options
  have hholds : (soundness options).Holds u := hkept.comesTo h (hkept.of_starts hnumbers hstart)
  exact ⟨hholds.states, hholds.elements, hkept.finish hholds⟩

def halfMasked : ExtGState Float where
  lineWidth := none
  lineCap := none
  lineJoin := none
  miterLimit := none
  dash := none
  strokeAlpha := none
  fillAlpha := some 2
  blendMode := none
  softMask := some (.group {
    kind := .alpha
    bbox := ⟨0, 0, 2, 2⟩
    matrix := .identity
    resources := .empty
    content := Utf8.encode "0 0 1 2 re f"
    knockout := false
    isolated := false
    backdrop := none
    colorSpace := none })

theorem comesTo_sound_halfMasked :
    let resources : Resources Float := { Resources.empty with extGStates := [("G", halfMasked)] }
    let options : Options Float := { Options.standard with softMaskBudget := 2 }
    let u := (execute options [.name "G", .operator "gs"] (.ofPage resources options)).state
    u.state.softMask.isSome = true ∧ u.state.Sound options := by
  intro resources options u
  have hentry : ∀ t name e, t = resources ∨ t = .empty → t.extGState? name = some e →
      e = halfMasked := by
    rintro t name e (rfl | rfl) he
    · have hmem : (Resources.key name, e) ∈ [("G", halfMasked)] := Resources.mem_of_find? he
      exact (Prod.mk.inj (List.mem_singleton.1 hmem)).2
    · exact absurd he (by simp [Resources.extGState?, Resources.find?, Resources.empty])
  have hnests : ∀ t, resources.Nests t → t = resources ∨ t = .empty := by
    intro t ht
    induction ht with
    | refl => exact .inl rfl
    | form h hform hown ih =>
      rcases ih with rfl | rfl <;>
        exact absurd hform (by simp [resources, Resources.xObject?, Resources.find?, Resources.empty])
    | group h he hgroup ih =>
      obtain rfl := hentry _ _ _ ih he
      obtain rfl := SoftMaskRef.group.inj (Option.some.inj hgroup)
      exact .inr rfl
  have hnumbers : ∀ t name e, resources.Nests t → t.extGState? name = some e → e.HasNumbers := by
    intro t name e ht he
    obtain rfl := hentry t name e (hnests t ht) he
    exact ⟨by simp only [halfMasked, Option.mem_some_iff, forall_eq']; decide +kernel,
      by simp [halfMasked]⟩
  refine ⟨by decide +kernel, ?_⟩
  have hsound := comesTo_sound options hnumbers .page
    (comesTo_execute options [.name "G", .operator "gs"] (.ofPage resources options))
  exact hsound.1 _ List.mem_cons_self

end Interpreter
end Lawful
end ContentStream
