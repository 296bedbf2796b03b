import Mathlib
import ContentStream.Interpreter.Run
import ContentStream.Proofs.Pixels
import ContentStream.Proofs.Rectangles

set_option autoImplicit false

namespace ContentStream
open Scalar
variable {K : Type} [ExactField K]

theorem Grid.pos_of_size? {width height : K} {budget : Nat} {size : Nat × Nat}
    (h : Grid.size? width height budget = some size) : 0 < width ∧ 0 < height := by
  unfold Grid.size? at h
  split at h
  · exact absurd h (by simp)
  · split at h
    · exact absurd h (by simp)
    · rename_i hpos
      simp only [Bool.or_eq_true, decide_eq_true_eq, not_or, not_le] at hpos
      exact hpos

theorem GraphicsState.clipCoverage_nonneg (state : GraphicsState K) (p : Point K) :
    0 ≤ state.clipCoverage p := by
  unfold GraphicsState.clipCoverage
  split
  · split
    · exact zero_le_one
    · exact ofByte_nonneg _
  · exact le_refl 0

def fillCoverage (segments : List (Segment K)) (rule : Option FillRule)
    (state : GraphicsState K) (p : Point K) : K :=
  if fillContains (flatten segments state.ctm) (rule.getD .nonZero) p then
    clampUnit state.fillAlpha * state.clipCoverage p
  else 0

theorem fillCoverage_nonneg (segments : List (Segment K)) (rule : Option FillRule)
    (state : GraphicsState K) (p : Point K) : 0 ≤ fillCoverage segments rule state p := by
  unfold fillCoverage
  split
  · exact mul_nonneg (clampUnit_nonneg _) (state.clipCoverage_nonneg p)
  · exact le_refl 0

theorem luminance_map_mul (c : Rgb K) (a : K) : (c.map (· * a)).luminance = c.luminance * a := by
  simp only [Rgb.luminance, Rgb.map]
  ring

theorem luminance_map_div (c : Rgb K) {a : K} (ha : a ≠ 0) :
    (c.map (· / a)).luminance * a = c.luminance := by
  simp only [Rgb.luminance, Rgb.map]
  field_simp

namespace Accumulated

theorem add_of_pos (knockout : Bool) (acc : Accumulated K) (rgb : Rgb K) {a : K} (ha : 0 < a) :
    acc.add knockout rgb a =
      if knockout then ⟨rgb.map (· * a), a⟩
      else ⟨⟨rgb.r * a + acc.color.r * (1 - a), rgb.g * a + acc.color.g * (1 - a),
        rgb.b * a + acc.color.b * (1 - a)⟩, a + acc.coverage * (1 - a)⟩ := by
  unfold add
  rw [if_neg ha.not_ge]

theorem add_zero_coverage (knockout : Bool) (acc : Accumulated K) (rgb : Rgb K) :
    acc.add knockout rgb 0 = acc :=
  if_pos (le_refl 0)

theorem luminance_add (knockout : Bool) (acc : Accumulated K) (rgb : Rgb K) {a : K} (ha : 0 < a) :
    (acc.add knockout rgb a).color.luminance =
      if knockout then rgb.luminance * a
      else rgb.luminance * a + acc.color.luminance * (1 - a) := by
  rw [add_of_pos _ _ _ ha]
  split
  · exact luminance_map_mul rgb a
  · simp only [Rgb.luminance]
    ring

theorem coverage_add (acc : Accumulated K) (rgb : Rgb K) {a : K} (ha : 0 ≤ a)
    (h : acc.coverage = 0) (knockout : Bool) : (acc.add knockout rgb a).coverage = a := by
  rcases ha.eq_or_lt with rfl | hpos
  · rw [add_zero_coverage, h]
  · rw [add_of_pos _ _ _ hpos]
    split
    · rfl
    · rw [h, zero_mul, add_zero]

theorem coverage_add_pos (knockout : Bool) (acc : Accumulated K) (rgb : Rgb K) {a : K}
    (ha : 0 < a) (h : acc.coverage = 0 ∨ acc.coverage = 1) :
    0 < (acc.add knockout rgb a).coverage := by
  rw [add_of_pos _ _ _ ha]
  split
  · exact ha
  · change 0 < a + acc.coverage * (1 - a)
    rcases h with h | h <;> rw [h] <;> linarith

theorem toAlpha_luminosity {acc : Accumulated K} (h : 0 < acc.coverage) :
    acc.toAlpha .luminosity = toByte acc.color.luminance := by
  change (if 0 < acc.coverage then _ else _) = _
  rw [if_pos h, luminance_map_div _ h.ne']

end Accumulated

def Sampler.ofFill (segments : List (Segment K)) (rule : Option FillRule)
    (state : GraphicsState K) : Sampler K :=
  ⟨some (.path (flatten segments state.ctm) (rule.getD .nonZero), state.fillInk), none⟩

theorem Sampler.sample?_ofFill (segments : List (Segment K)) (rule : Option FillRule)
    (state : GraphicsState K) (p : Point K) :
    (Sampler.ofFill segments rule state).sample? p =
      if fillContains (flatten segments state.ctm) (rule.getD .nonZero) p then
        some (state.fillColor.toRgb, clampUnit state.fillAlpha)
      else none := by
  by_cases hp : fillContains (flatten segments state.ctm) (rule.getD .nonZero) p = true
  · simp [Sampler.sample?, Sampler.ofFill, Area.contains, GraphicsState.fillInk, hp]
  · simp [Sampler.sample?, Sampler.ofFill, Area.contains, hp]

theorem Layer.ofElements_fill {resources : Resources K} {options : Options K}
    {segments : List (Segment K)} {rule : Option FillRule} {state : GraphicsState K}
    {layers : List (Layer K × GraphicsState K)}
    (h : Layer.ofElements resources options [.path ⟨segments, .fill, rule, state⟩] = .ok layers) :
    layers = [(.vector (Sampler.ofFill segments rule state), state)] := by
  have hlayer : Layer.ofElement? resources options (.path ⟨segments, .fill, rule, state⟩) =
      if Layer.usesPattern ⟨segments, .fill, rule, state⟩ then
        .error (.unsupportedMask .patternPaint)
      else .ok (some (.vector (Sampler.ofFill segments rule state))) := rfl
  by_cases hpattern : Layer.usesPattern ⟨segments, .fill, rule, state⟩ = true
  · rw [Layer.ofElements, hlayer, if_pos hpattern] at h
    exact absurd h (by simp)
  · rw [Layer.ofElements, hlayer, if_neg hpattern] at h
    exact (Except.ok.inj h).symm

theorem Accumulated.addLayer_ofFill (segments : List (Segment K)) (rule : Option FillRule)
    (state : GraphicsState K) (knockout : Bool) (p : Point K) (acc : Accumulated K) :
    acc.addLayer knockout p (.vector (Sampler.ofFill segments rule state), state) =
      acc.add knockout state.fillColor.toRgb (fillCoverage segments rule state p) := by
  unfold Accumulated.addLayer fillCoverage
  simp only [Layer.sample?, Sampler.sample?_ofFill]
  by_cases hp : fillContains (flatten segments state.ctm) (rule.getD .nonZero) p = true
  · simp only [if_pos hp]
  · simp only [if_neg hp, Accumulated.add_zero_coverage]

namespace SoftMaskGroup

/-- The value of a pixel under a single fill of coverage `a`. -/
def fillValue (g : SoftMaskGroup K) (backdrop : Option (Rgb K)) (rgb : Rgb K) (a : K) : K :=
  match g.kind, backdrop with
  | .alpha, _ => a
  | .luminosity, none => rgb.luminance * a
  | .luminosity, some b =>
    if g.knockout = true ∧ 0 < a then rgb.luminance * a
    else rgb.luminance * a + b.luminance * (1 - a)

theorem backdrop_of_alpha {g : SoftMaskGroup K} {backdrop : Option (Rgb K)}
    (hkind : g.kind = .alpha) (hb : g.backdropColor? = .ok backdrop) : backdrop = none := by
  unfold backdropColor? at hb
  rw [hkind] at hb
  exact (Except.ok.inj hb).symm

theorem toAlpha_fill (g : SoftMaskGroup K) {backdrop : Option (Rgb K)}
    (hb : g.backdropColor? = .ok backdrop) (rgb : Rgb K) {a : K} (ha : 0 ≤ a) :
    ((background backdrop).add g.knockout rgb a).toAlpha g.kind =
      toByte (g.fillValue backdrop rgb a) := by
  cases hkind : g.kind with
  | alpha =>
    obtain rfl := backdrop_of_alpha hkind hb
    have hcoverage : ((background none).add g.knockout rgb a).coverage = a :=
      Accumulated.coverage_add _ rgb ha rfl g.knockout
    simp only [Accumulated.toAlpha, fillValue, hkind, hcoverage]
  | luminosity =>
    rcases ha.eq_or_lt with rfl | hpos
    · rw [Accumulated.add_zero_coverage]
      cases backdrop with
      | none => simp [Accumulated.toAlpha, background, fillValue, hkind]
      | some b =>
        rw [Accumulated.toAlpha_luminosity zero_lt_one]
        simp [background, fillValue, hkind]
    · have hstart : (background backdrop).coverage = 0 ∨ (background backdrop).coverage = 1 := by
        cases backdrop with
        | none => exact .inl rfl
        | some b => exact .inr rfl
      rw [Accumulated.toAlpha_luminosity (Accumulated.coverage_add_pos _ _ _ hpos hstart),
        Accumulated.luminance_add _ _ _ hpos]
      cases backdrop with
      | none => simp [background, fillValue, hkind, Rgb.black, Rgb.luminance]
      | some b => simp [background, fillValue, hkind, hpos]

theorem composite_fill {g : SoftMaskGroup K} {bbox : Rect K} {options : Options K}
    {segments : List (Segment K)} {rule : Option FillRule} {state : GraphicsState K}
    {width height : Nat} {bytes : Array UInt8}
    (h : g.composite bbox [.path ⟨segments, .fill, rule, state⟩] options =
      .ok (width, height, bytes)) :
    bbox.x0 < bbox.x1 ∧ bbox.y0 < bbox.y1 ∧ ∃ backdrop, g.backdropColor? = .ok backdrop ∧
      ∀ b, b ∈ bytes ↔ ∃ col < width, ∃ row < height,
        toByte (g.fillValue backdrop state.fillColor.toRgb (fillCoverage segments rule state
          (bbox.placement.apply (Grid.center width height col row)))) = b := by
  obtain ⟨hsize, layers, backdrop, hlayers, hbackdrop, rfl⟩ := composite_eq_ok_iff.1 h
  obtain ⟨hwidth, hheight⟩ := Grid.pos_of_size? hsize
  refine ⟨sub_pos.1 hwidth, sub_pos.1 hheight, backdrop, hbackdrop, ?_⟩
  intro b
  rw [alphaBytes, List.mem_toArray, Grid.mem_tabulate]
  have hpixel : ∀ p, (layers.foldl (Accumulated.addLayer g.knockout p)
      (background backdrop)).toAlpha g.kind =
        toByte (g.fillValue backdrop state.fillColor.toRgb
          (fillCoverage segments rule state p)) := by
    intro p
    rw [Layer.ofElements_fill hlayers, List.foldl_cons, List.foldl_nil,
      Accumulated.addLayer_ofFill]
    exact g.toAlpha_fill hbackdrop _ (fillCoverage_nonneg _ _ _ _)
  simp only [hpixel]

theorem toByte_constantValue {g : SoftMaskGroup K} {bbox : Rect K} {x y w h alpha : K}
    {rule : Option FillRule} {state : GraphicsState K}
    (hconstant : constantValue? g.kind bbox [.path ⟨[.rect x y w h], .fill, rule, state⟩] =
      some alpha) :
    toByte alpha = toByte (g.fillValue none state.fillColor.toRgb (clampUnit state.fillAlpha)) := by
  unfold constantValue? at hconstant
  dsimp only at hconstant
  split at hconstant
  · cases hkind : g.kind with
    | alpha =>
      rw [hkind] at hconstant
      obtain rfl := Option.some.inj hconstant
      simp only [fillValue, hkind]
    | luminosity =>
      rw [hkind] at hconstant
      obtain rfl := Option.some.inj hconstant
      simp only [fillValue, hkind, toByte_clampUnit]
      rfl
  · exact absurd hconstant (by simp)

/-- A backdrop does not show under a fill that replaces it or covers it all. -/
theorem fillValue_covered (g : SoftMaskGroup K) {backdrop : Option (Rgb K)} (rgb : Rgb K) {a : K}
    (h : backdrop = none ∨ (g.knockout = true ∧ 0 < a) ∨ a = 1) :
    g.fillValue backdrop rgb a = g.fillValue none rgb a := by
  cases backdrop with
  | none => rfl
  | some b =>
    unfold fillValue
    cases g.kind with
    | alpha => rfl
    | luminosity =>
      rcases h with h | h | rfl
      · exact absurd h (by simp)
      · exact if_pos h
      · simp

/-- The bytes of a group of one fill of its bounding box are those of its constant value exactly if
the fill, clipped and over the backdrop, gives the same byte at the centre of every pixel. With the
identity for a transform the fill covers all of these, so that its clip and the backdrop decide
alone, and nothing differs where the clip lets every pixel through and no backdrop shows. -/
theorem composite_eq_constantValue_iff (g : SoftMaskGroup K) (options : Options K)
    (x y w h : K) (rule : Option FillRule) (state : GraphicsState K) (alpha : K)
    (width height : Nat) (bytes : Array UInt8)
    (hbbox : Rect.normalize ⟨x, y, x + w, y + h⟩ = g.bbox.normalize)
    (hconstant : constantValue? g.kind g.bbox.normalize
      [.path ⟨[.rect x y w h], .fill, rule, state⟩] = some alpha)
    (hgrid : g.composite g.bbox.normalize [.path ⟨[.rect x y w h], .fill, rule, state⟩] options =
      .ok (width, height, bytes)) :
    let center := fun col row =>
      g.bbox.normalize.placement.apply (Grid.center width height col row)
    ∃ backdrop, g.backdropColor? = .ok backdrop ∧
      ((∀ b ∈ bytes, b = toByte alpha) ↔ ∀ col < width, ∀ row < height,
        toByte (g.fillValue backdrop state.fillColor.toRgb
          (fillCoverage [.rect x y w h] rule state (center col row))) = toByte alpha) ∧
      (state.ctm = .identity →
        ((∀ b ∈ bytes, b = toByte alpha) ↔ ∀ col < width, ∀ row < height,
          toByte (g.fillValue backdrop state.fillColor.toRgb
            (clampUnit state.fillAlpha * state.clipCoverage (center col row))) = toByte alpha) ∧
        ((∀ col < width, ∀ row < height, state.clipCoverage (center col row) = 1) →
          (backdrop = none ∨ (g.knockout = true ∧ 0 < clampUnit state.fillAlpha) ∨
            clampUnit state.fillAlpha = 1) →
          ∀ b ∈ bytes, b = toByte alpha)) := by
  intro center
  obtain ⟨hx, hy, backdrop, hbackdrop, hbytes⟩ := composite_fill hgrid
  have hiff : (∀ b ∈ bytes, b = toByte alpha) ↔ ∀ col < width, ∀ row < height,
      toByte (g.fillValue backdrop state.fillColor.toRgb
        (fillCoverage [.rect x y w h] rule state (center col row))) = toByte alpha := by
    constructor
    · intro hall col hcol row hrow
      exact hall _ ((hbytes _).2 ⟨col, hcol, row, hrow, rfl⟩)
    · intro hall b hb
      obtain ⟨col, hcol, row, hrow, rfl⟩ := (hbytes b).1 hb
      exact hall col hcol row hrow
  refine ⟨backdrop, hbackdrop, hiff, ?_⟩
  intro hctm
  have hcoverage : ∀ col < width, ∀ row < height,
      fillCoverage [.rect x y w h] rule state (center col row) =
        clampUnit state.fillAlpha * state.clipCoverage (center col row) := by
    intro col hcol row hrow
    have hinside : (Rect.normalize ⟨x, y, x + w, y + h⟩).Encloses (center col row) := by
      rw [hbbox]
      exact Grid.encloses_center hx hy hcol hrow
    unfold fillCoverage
    rw [hctm]
    exact if_pos (fillContains_rect _ hinside)
  have hclip : (∀ b ∈ bytes, b = toByte alpha) ↔ ∀ col < width, ∀ row < height,
      toByte (g.fillValue backdrop state.fillColor.toRgb
        (clampUnit state.fillAlpha * state.clipCoverage (center col row))) = toByte alpha := by
    rw [hiff]
    constructor
    · intro hall col hcol row hrow
      rw [← hcoverage col hcol row hrow]
      exact hall col hcol row hrow
    · intro hall col hcol row hrow
      rw [hcoverage col hcol row hrow]
      exact hall col hcol row hrow
  refine ⟨hclip, ?_⟩
  intro hopen hcovered
  refine hclip.2 ?_
  intro col hcol row hrow
  rw [hopen col hcol row hrow, mul_one, g.fillValue_covered _ hcovered]
  exact (toByte_constantValue hconstant).symm

def squareGroup (content : String) : SoftMaskGroup ℚ where
  kind := .alpha
  bbox := ⟨0, 0, 2, 2⟩
  matrix := .identity
  resources := .empty
  content := Utf8.encode content
  knockout := false
  isolated := false
  backdrop := none
  colorSpace := none

def squareFill (state : GraphicsState ℚ) : List (Element ℚ) :=
  [.path ⟨[.rect 0 0 2 2], .fill, some .nonZero, state⟩]

def coarse : Options ℚ := { Options.standard with softMaskBudget := 2 }

theorem composite_eq_constantValue_half :
    let state : GraphicsState ℚ := { GraphicsState.initial with fillAlpha := 1 / 2 }
    let bytes : Array UInt8 := #[128, 128, 128, 128]
    (squareGroup "").composite ⟨0, 0, 2, 2⟩ (squareFill state) coarse = .ok (2, 2, bytes) ∧
      ∀ b ∈ bytes, b = toByte (1 / 2 : ℚ) := by
  intro state bytes
  refine ⟨by decide +kernel, ?_⟩
  obtain ⟨backdrop, hbackdrop, -, h⟩ :=
    composite_eq_constantValue_iff (squareGroup "") coarse 0 0 2 2 (some .nonZero) state (1 / 2)
      2 2 bytes (by decide +kernel) (by decide +kernel) (by decide +kernel)
  exact (h rfl).2 (by decide +kernel) (.inl (backdrop_of_alpha rfl hbackdrop))

/-- A fill under a clip that leaves the right half out. -/
theorem composite_ne_constantValue_clipped :
    let g := squareGroup "0 0 1 2 re W 0 0 2 2 re f"
    let start := Interpreter.ofGroup g.resources 1
    let drawn := (Interpreter.execute coarse (tokenize g.content) start).state.finish
    drawn = squareFill { GraphicsState.initial with clipBBox := ⟨0, 0, 1, 2⟩ } ∧
      constantValue? g.kind g.bbox.normalize drawn = some 1 ∧
      g.composite g.bbox.normalize drawn coarse = .ok (2, 2, #[255, 0, 255, 0]) ∧
      (0 : UInt8) ≠ toByte (1 : ℚ) := by
  refine ⟨?_, ?_, ?_, ?_⟩
  · decide +kernel
  · decide +kernel
  · decide +kernel
  · decide +kernel

end SoftMaskGroup
end ContentStream
