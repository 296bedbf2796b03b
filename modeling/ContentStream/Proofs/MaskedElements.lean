import Mathlib
import ContentStream.Proofs.NestedMasks

set_option autoImplicit false

namespace ContentStream
open Scalar
variable {K : Type}

/-- The operator of a path, or the rendering mode of a text, paints something. -/
def Element.IsVisible : Element K → Prop
  | .path e => e.paint ≠ .none
  | .text e => e.state.text.renderMode ∈ [0, 1, 2, 4, 5, 6]
  | _ => False

def Element.raster? : Element K → Option (RasterImage K)
  | .raster r => some r
  | _ => none

/-- The raster stands for an element that has been painted through the mask. -/
structure RasterImage.IsThrough [Scalar K] (r : RasterImage K) (m : Mask K) : Prop where
  width : r.width = m.width
  height : r.height = m.height
  placement : r.state.ctm = m.matrix
  softMask : r.state.softMask = none
  softMaskAlpha : r.state.softMaskAlpha = 1
  fillAlpha : r.state.fillAlpha = 1
  strokeAlpha : r.state.strokeAlpha = 1
  fillPattern : r.state.fillPattern = none
  size : r.pixels.size = r.width * r.height * 4
  alpha_le : ∀ col < r.width, ∀ row < r.height, (r.pixel col row).alpha ≤ m.get col row

namespace Element.IsVisible
variable {e : Element K}

theorem softMask_of_unmasked [Scalar K] (h : e.IsVisible)
    (hunmasked : Interpreter.isMasked e = false) : e.state.softMask = none := by
  cases e with
  | path e =>
    have hpaint : (e.paint != .none) = true := bne_iff_ne.2 h
    simpa [Interpreter.isMasked, hpaint, state] using hunmasked
  | text e => simpa [Interpreter.isMasked, state] using hunmasked
  | image | raster => exact absurd h (by simp [IsVisible])

theorem isSome_sampler [Scalar K] (h : e.IsVisible) : (Sampler.ofElement? e).isSome = true := by
  cases e with
  | path e =>
    change e.paint ≠ .none at h
    cases hpaint : e.paint with
    | none => exact absurd hpaint h
    | fill | stroke | fillStroke =>
      simp [Sampler.ofElement?, Sampler.ofPath?, hpaint, Paint.fills, Paint.strokes]
  | text e =>
    have hink : e.state.textInk?.isSome = true := by
      change e.state.text.renderMode ∈ [0, 1, 2, 4, 5, 6] at h
      unfold GraphicsState.textInk? TextParams.fills TextParams.strokesOnly
      simp only [List.mem_cons, List.not_mem_nil, or_false] at h
      rcases h with h | h | h | h | h | h <;> rw [h] <;> rfl
    simpa [Sampler.ofElement?, Sampler.ofText?] using hink
  | image | raster => exact absurd h (by simp [IsVisible])

end Element.IsVisible

section Exact
variable [ExactField K]

theorem round_le_of_le {x : K} {n : ℕ} (h : x ≤ n) : round x ≤ n := by
  have hfloor : ⌊x⌋₊ ≤ n := Nat.floor_le_of_le h
  change (if (0.5 : K) ≤ x - (⌊x⌋₊ : K) then ⌊x⌋₊ + 1 else ⌊x⌋₊) ≤ n
  split
  · rename_i hup
    -- At `n` itself nothing is left to be rounded up.
    refine Nat.succ_le_of_lt (lt_of_le_of_ne hfloor ?_)
    intro heq
    rw [heq] at hup
    have : (0 : K) < 0.5 := by norm_num
    linarith
  · exact hfloor

theorem toByte_le_of_le {x : K} {b : UInt8} (h : x ≤ ofByte b) : toByte x ≤ b := by
  have hclamp : clampUnit x ≤ ofByte b := by
    rw [clampUnit_eq]
    exact min_le_of_left_le (max_le h (ofByte_nonneg b))
  have hscaled : clampUnit x * ((255 : ℕ) : K) ≤ (b.toNat : K) := by
    have hpos : (0 : K) < ((255 : ℕ) : K) := by norm_num
    exact (le_div_iff₀ hpos).1 hclamp
  have hround : round (clampUnit x * ((255 : ℕ) : K)) ≤ b.toNat := round_le_of_le hscaled
  rw [UInt8.le_iff_toNat_le]
  change round (clampUnit x * ((255 : ℕ) : K)) % 256 ≤ b.toNat
  exact (Nat.mod_le _ _).trans hround

theorem ofByte_le_one (b : UInt8) : (ofByte b : K) ≤ 1 := by
  have hb : (b.toNat : K) ≤ ((255 : ℕ) : K) := Nat.cast_le.2 (Nat.le_of_lt_succ b.toNat_lt)
  exact div_le_one_of_le₀ hb (Nat.cast_nonneg _)

@[simp] theorem round_natCast (n : ℕ) : round (n : K) = n := by
  have hfloor : ⌊(n : K)⌋₊ = n := Nat.floor_natCast n
  change (if (0.5 : K) ≤ (n : K) - (⌊(n : K)⌋₊ : K) then ⌊(n : K)⌋₊ + 1 else ⌊(n : K)⌋₊) = n
  rw [hfloor, sub_self, if_neg (by norm_num)]

/-- A byte that is read as a part of one is written as the byte it was. -/
@[simp] theorem toByte_ofByte (b : UInt8) : toByte (ofByte b : K) = b := by
  have hscale : (ofByte b : K) * ((255 : ℕ) : K) = (b.toNat : K) :=
    div_mul_cancel₀ _ (by norm_num)
  unfold toByte
  rw [clampUnit_of_mem (ofByte_nonneg b) (ofByte_le_one b), hscale, round_natCast]
  exact UInt8.ofNat_toNat

theorem inUnit_ofByte (b : UInt8) : InUnit (ofByte b : K) := ⟨ofByte_nonneg b, ofByte_le_one b⟩

theorem GraphicsState.inUnit_clipCoverage (g : GraphicsState K) (p : Point K) :
    InUnit (g.clipCoverage p) := by
  unfold clipCoverage
  split
  · split
    · exact inUnit_one
    · exact inUnit_ofByte _
  · exact inUnit_zero

theorem Sampler.inUnit_sample? {s : Sampler K} {p : Point K} {rgb : Rgb K} {a : K}
    (h : s.sample? p = some (rgb, a)) : InUnit a := by
  unfold sample? at h
  dsimp only at h
  split at h
  · exact absurd h (by simp)
  · obtain ⟨-, rfl⟩ := Prod.mk.inj (Option.some.inj h)
    exact inUnit_clampUnit _
  · obtain ⟨-, rfl⟩ := Prod.mk.inj (Option.some.inj h)
    exact inUnit_clampUnit _
  · rename_i f t _ _
    have hf : InUnit (clampUnit f.alpha) := inUnit_clampUnit _
    have ht : InUnit (clampUnit t.alpha) := inUnit_clampUnit _
    unfold blend at h
    dsimp only at h
    split at h
    · obtain ⟨-, rfl⟩ := Prod.mk.inj (Option.some.inj h)
      exact inUnit_zero
    · obtain ⟨-, rfl⟩ := Prod.mk.inj (Option.some.inj h)
      have hrest : 0 ≤ 1 - clampUnit t.alpha := sub_nonneg.2 ht.2
      refine ⟨add_nonneg ht.1 (mul_nonneg hf.1 hrest), ?_⟩
      have := mul_le_of_le_one_left hrest hf.2
      linarith

/-- A product with a mask value that is rounded to a byte stays below the byte of the mask. -/
theorem Sampler.alpha_maskedPixel_le (s : Sampler K) (b : UInt8) {c constant : K} (hc : InUnit c)
    (hconstant : InUnit constant) (p : Point K) :
    (Rgba.ofBytes (s.maskedPixel (ofByte b * c) constant p)).alpha ≤ b := by
  have hzero : (0 : UInt8) ≤ b := UInt8.le_iff_toNat_le.2 (Nat.zero_le _)
  unfold maskedPixel
  split
  · rename_i rgb a hsample
    have ha : InUnit a := inUnit_sample? hsample
    split
    · have hfactors : InUnit (a * c * constant) := inUnit_mul (inUnit_mul ha hc) hconstant
      have hproduct : a * (ofByte b * c) * constant ≤ ofByte b := by
        calc a * (ofByte b * c) * constant = ofByte b * (a * c * constant) := by ring
          _ ≤ ofByte b := mul_le_of_le_one_right (ofByte_nonneg b) hfactors.2
      exact toByte_le_of_le hproduct
    · exact hzero
  · exact hzero

variable {options : Options K}

theorem Element.rasterizeMasked?_isThrough {e : Element K} {r : RasterImage K} {m : Mask K}
    (hm : e.state.softMask = some m) (h : e.rasterizeMasked? = some r) : r.IsThrough m := by
  obtain ⟨m', sampler, hm', -, hwidth, hheight, hstate, hpixels⟩ := rasterizeMasked?_spec h
  obtain rfl := Option.some.inj (hm.symm.trans hm')
  refine ⟨hwidth, hheight, ?_, ?_, ?_, ?_, ?_, ?_, hpixels.size, ?_⟩
  · rw [hstate]; rfl
  · rw [hstate]; rfl
  · rw [hstate]; rfl
  · rw [hstate]; rfl
  · rw [hstate]; rfl
  · rw [hstate]; rfl
  · intro col hcol row hrow
    rw [hpixels.pixel col hcol row hrow]
    exact sampler.alpha_maskedPixel_le _ (e.state.inUnit_clipCoverage _) (inUnit_clampUnit _) _

theorem Element.IsVisible.drawn_eq {e : Element K} (h : e.IsVisible) (he : e.state.Sound options)
    {m : Mask K} (hm : e.state.softMask = some m) :
    ∃ r, Interpreter.drawn e = .raster r ∧ r.IsThrough m := by
  have hmasked : Interpreter.isMasked e = true := by
    by_contra hunmasked
    rw [h.softMask_of_unmasked (Bool.eq_false_of_not_eq_true hunmasked)] at hm
    exact absurd hm (by simp)
  have hsome : e.rasterizeMasked?.isSome = true := by
    rw [rasterizeMasked?_isSome hm (he.softMask m hm).1.isConsistent]
    exact h.isSome_sampler
  obtain ⟨r, hr⟩ := Option.isSome_iff_exists.1 hsome
  refine ⟨r, ?_, rasterizeMasked?_isThrough hm hr⟩
  unfold Interpreter.drawn
  rw [if_pos hmasked, hr]
  rfl

theorem Interpreter.drawn_cases (e : Element K) : drawn e = e ∨ ∃ r, drawn e = .raster r :=
  drawn_induction (fun d => d = e ∨ ∃ r, d = .raster r) (.inl rfl) fun r _ => .inr ⟨r, rfl⟩

theorem Element.softMask_drawn {e : Element K} (he : e.state.Sound options)
    (h : (Interpreter.drawn e).IsVisible) : (Interpreter.drawn e).state.softMask = none := by
  rcases Interpreter.drawn_cases e with hdrawn | ⟨r, hdrawn⟩
  · rw [hdrawn] at h ⊢
    -- A visible element with a grid would have been drawn as pixels.
    by_contra hgrid
    obtain ⟨m, hm⟩ := Option.ne_none_iff_exists'.1 hgrid
    obtain ⟨r, hraster, -⟩ := h.drawn_eq he hm
    rw [hdrawn] at hraster
    rw [hraster] at h
    exact h
  · rw [hdrawn] at h
    exact absurd h (by simp [IsVisible])

namespace Interpreter

/-- Wherever an execution comes through, everything drawn is drawn for something painted, and no
path or text that paints anything has a grid in its state. Whatever can be painted in one of the
states on the stack, so that it would be drawn with a grid, adds exactly one element: the pixels of
the grid. -/
theorem comesTo_visible_unmasked (options : Options K) {resources : Resources K}
    {start u : Interpreter K} (hstart : Starts options resources start) {ts : List (Token K)}
    (h : ComesTo options ts start u) :
    (∀ e, e ∈ u.elements.toList ∨ e ∈ u.finish →
      (∃ painted g, g.Sound options ∧ Painted options g painted ∧ e = drawn painted) ∧
        (e.IsVisible → e.state.softMask = none)) ∧
    ∀ g ∈ u.stack.states, ∀ e, Painted options g e → e.IsVisible →
      ∀ m, e.state.softMask = some m → ∀ s : Interpreter K,
        ∃ r, s.emit e = { s with elements := s.elements.push (.raster r) } ∧ r.IsThrough m := by
  have hkept := painting_kept options
  have hentries := painting_allEntries options resources
  have hholds : (painting options).Holds u := hkept.comesTo h (hkept.of_starts hentries hstart)
  refine ⟨?_, ?_⟩
  · intro e he
    have hpainting : (painting options).element e := by
      rcases he with he | he
      · exact hholds.elements e he
      · exact hkept.finish hholds e he
    obtain ⟨painted, g, hg, hpainted, rfl⟩ := hpainting
    refine ⟨⟨painted, g, hg, hpainted, rfl⟩, ?_⟩
    exact Element.softMask_drawn (hpainted.sound hg).state
  · intro g hg e hpainted hvisible m hm s
    have hsound : e.state.Sound options := (hpainted.sound (hholds.states g hg)).state
    obtain ⟨r, hdrawn, hthrough⟩ := hvisible.drawn_eq hsound hm
    refine ⟨r, ?_, hthrough⟩
    rw [emit_eq, hdrawn]

/-- A square that is filled under a mask of its left half. -/
theorem comesTo_visible_unmasked_leftHalf :
    let resources := (SoftMaskGroup.withNested (.squareGroup "0 0 1 2 re f") "").resources
    let options := SoftMaskGroup.coarse
    let u := (execute options (tokenize (Utf8.encode "/N gs")) (.ofPage resources options)).state
    let square : Element ℚ := .path ⟨[.rect 0 0 2 2], .fill, some .nonZero, u.state⟩
    square.IsVisible ∧ ∃ m r, square.state.softMask = some m ∧
      u.emit square = { u with elements := u.elements.push (.raster r) } ∧ r.IsThrough m ∧
      r.pixel 0 0 = ⟨0, 0, 0, 255⟩ ∧ r.pixel 1 0 = .transparent := by
  intro resources options u square
  have hvisible : square.IsVisible := Paint.noConfusion
  have hmasked : u.state.softMask.isSome = true := by decide +kernel
  obtain ⟨m, hm⟩ := Option.isSome_iff_exists.1 hmasked
  obtain ⟨-, hemit⟩ := comesTo_visible_unmasked options .page
    (comesTo_execute options (tokenize (Utf8.encode "/N gs")) (.ofPage resources options))
  obtain ⟨r, hr, hthrough⟩ :=
    hemit u.state List.mem_cons_self square (.path _ (.inl rfl)) hvisible m hm u
  have hpixels : (drawn square).raster?.map (fun r => (r.pixel 0 0, r.pixel 1 0)) =
      some (⟨0, 0, 0, 255⟩, .transparent) := by
    decide +kernel
  have hdrawn : drawn square = .raster r := by
    have hpush := congrArg (fun s : Interpreter ℚ => s.elements.back?) hr
    rw [emit_eq] at hpush
    simpa using hpush
  rw [hdrawn] at hpixels
  obtain ⟨hleft, hright⟩ := Prod.mk.inj (Option.some.inj hpixels)
  exact ⟨hvisible, m, r, hm, hr, hthrough, hleft, hright⟩

end Interpreter
end Exact
end ContentStream
