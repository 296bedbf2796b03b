import Mathlib
import ContentStream.Proofs.MaskedElements

set_option autoImplicit false

/-!
# Accumulated layers

What the layers of a group leave at a point. Laid over each other they leave uncovered what every
one of them leaves uncovered, in whichever order they come. In a group that knocks out, the last
layer that covers anything decides alone. Colours stay premultiplied by the coverage either way.
-/
namespace ContentStream
open Scalar
variable {K : Type} [ExactField K]

/-- A channel of two inks over each other is a mean of the two, weighted by what is seen of them. -/
theorem inUnit_mix {s f sa fa : K} (hs : InUnit s) (hf : InUnit f) (hsa : InUnit sa)
    (hfa : InUnit fa) (hpos : 0 < sa + fa * (1 - sa)) :
    InUnit ((s * sa + f * fa * (1 - sa)) / (sa + fa * (1 - sa))) := by
  have hrest : 0 ≤ fa * (1 - sa) := mul_nonneg hfa.1 (sub_nonneg.2 hsa.2)
  have hbottom : f * fa * (1 - sa) = f * (fa * (1 - sa)) := mul_assoc _ _ _
  rw [hbottom]
  constructor
  · exact div_nonneg (add_nonneg (mul_nonneg hs.1 hsa.1) (mul_nonneg hf.1 hrest)) hpos.le
  · have htop : s * sa ≤ sa := mul_le_of_le_one_left hsa.1 hs.2
    have hbelow : f * (fa * (1 - sa)) ≤ fa * (1 - sa) := mul_le_of_le_one_left hrest hf.2
    exact (div_le_one hpos).2 (add_le_add htop hbelow)

theorem Sampler.inGamut_blend {top bottom : Ink K} (ht : top.rgb.InGamut)
    (hb : bottom.rgb.InGamut) : (blend top bottom).1.InGamut := by
  have hsa : InUnit (clampUnit top.alpha) := inUnit_clampUnit _
  have hfa : InUnit (clampUnit bottom.alpha) := inUnit_clampUnit _
  unfold blend
  dsimp only
  split
  · exact Rgb.inGamut_black
  · have hpos := not_le.1 ‹_›
    exact ⟨inUnit_mix ht.r hb.r hsa hfa hpos, inUnit_mix ht.g hb.g hsa hfa hpos,
      inUnit_mix ht.b hb.b hsa hfa hpos⟩

theorem Ink.inGamut_of_bind {α : Type} {painted : Option (α × Ink K)}
    (h : ∀ x ∈ painted, x.2.rgb.InGamut) (inside : α → Bool) {ink : Ink K}
    (hink : (painted.bind fun x => if inside x.1 then some x.2 else none) = some ink) :
    ink.rgb.InGamut := by
  obtain ⟨x, hx, hink⟩ := Option.bind_eq_some_iff.1 hink
  split at hink
  · obtain rfl := Option.some.inj hink
    exact h x hx
  · exact absurd hink (by simp)

theorem Sampler.inGamut_sample? {t : Sampler K} (harea : ∀ x ∈ t.area, x.2.rgb.InGamut)
    (hstroke : ∀ x ∈ t.stroke, x.2.rgb.InGamut) {p : Point K} {rgb : Rgb K} {a : K}
    (h : t.sample? p = some (rgb, a)) : rgb.InGamut := by
  unfold sample? at h
  dsimp only at h
  split at h
  · exact absurd h (by simp)
  · rename_i f hf _
    obtain ⟨rfl, -⟩ := Prod.mk.inj (Option.some.inj h)
    exact Ink.inGamut_of_bind harea (Area.contains · p) hf
  · rename_i s _ hs
    obtain ⟨rfl, -⟩ := Prod.mk.inj (Option.some.inj h)
    exact Ink.inGamut_of_bind hstroke (Stroke.contains · p) hs
  · rename_i f s hf hs
    have hblend := inGamut_blend (Ink.inGamut_of_bind hstroke (Stroke.contains · p) hs)
      (Ink.inGamut_of_bind harea (Area.contains · p) hf)
    rw [Option.some.inj h] at hblend
    exact hblend

namespace Layer
variable {resources : Resources K} {options : Options K}

section Points
variable (p : Point K) (l : Layer K × GraphicsState K)

def colorAt : Rgb K := (l.1.sample? p).elim .black Prod.fst

/-- The coverage of a layer, which is zero where it has no sample, under the clip of its element. -/
def coverageAt : K := (l.1.sample? p).elim 0 Prod.snd * l.2.clipCoverage p

def premultiplied : Accumulated K := ⟨(colorAt p l).map (· * coverageAt p l), coverageAt p l⟩

/-- The last layer that covers any of a point, searched from the top. -/
def topmost? (layers : List (Layer K × GraphicsState K)) : Option (Layer K × GraphicsState K) :=
  layers.reverse.find? fun l => 0 < coverageAt p l

theorem topmost?_append_singleton (layers : List (Layer K × GraphicsState K)) :
    topmost? p (layers ++ [l]) = if 0 < coverageAt p l then some l else topmost? p layers := by
  unfold topmost?
  rw [List.reverse_append, List.reverse_singleton, List.singleton_append, List.find?_cons]
  by_cases hcovers : 0 < coverageAt p l
  · simp [hcovers]
  · simp [hcovers]

/-- The layer has a colour in gamut at a point, and covers a part of it. -/
structure InGamut : Prop where
  color : (colorAt p l).InGamut
  coverage : InUnit (coverageAt p l)

end Points

theorem inGamut_of_sample? {p : Point K} {l : Layer K × GraphicsState K}
    (h : ∀ x ∈ l.1.sample? p, x.1.InGamut ∧ InUnit x.2) : InGamut p l := by
  cases hsample : l.1.sample? p with
  | none =>
    constructor
    · rw [colorAt, hsample]
      exact Rgb.inGamut_black
    · rw [coverageAt, hsample]
      exact inUnit_mul inUnit_zero (l.2.inUnit_clipCoverage p)
  | some x =>
    obtain ⟨hcolor, hcoverage⟩ := h x hsample
    constructor
    · rw [colorAt, hsample]
      exact hcolor
    · rw [coverageAt, hsample]
      exact inUnit_mul hcoverage (l.2.inUnit_clipCoverage p)

theorem sample?_ofElement? {e : Element K} {l : Layer K}
    (h : ofElement? resources options e = .ok (some l)) (p : Point K) :
    ∀ x ∈ l.sample? p, x.1.InGamut ∧ InUnit x.2 := by
  rcases ofElement?_cases h with ⟨t, ht, rfl⟩ | ⟨image, inverse, alpha, rfl⟩
  · obtain ⟨harea, hstroke⟩ := Sampler.inks_ofElement? ht
    have hfillInk : e.state.fillInk.rgb.InGamut := ColorSpace.inGamut_toRgb _ _
    have hstrokeInk : e.state.strokeInk.rgb.InGamut := ColorSpace.inGamut_toRgb _ _
    rintro ⟨rgb, a⟩ hx
    refine ⟨Sampler.inGamut_sample? ?_ ?_ hx, Sampler.inUnit_sample? hx⟩
    · intro x hx
      rcases harea x hx with hink | hink
      · rwa [hink]
      · rwa [hink]
    · intro x hx
      rwa [hstroke x hx]
  · intro x hx
    obtain ⟨cell, -, rfl⟩ := Option.map_eq_some_iff.1 hx
    exact ⟨⟨inUnit_ofByte _, inUnit_ofByte _, inUnit_ofByte _⟩,
      inUnit_mul (inUnit_ofByte _) (inUnit_clampUnit _)⟩

theorem inGamut_ofElements {es : List (Element K)} {layers : List (Layer K × GraphicsState K)}
    (h : ofElements resources options es = .ok layers) : ∀ l ∈ layers, ∀ p, InGamut p l := by
  intro l hl p
  obtain ⟨e, -, hlayer, -⟩ := mem_ofElements h hl
  exact inGamut_of_sample? (sample?_ofElement? hlayer p)

theorem ofElements_perm {es es' : List (Element K)} (hperm : es.Perm es')
    {layers : List (Layer K × GraphicsState K)}
    (h : ofElements resources options es = .ok layers) :
    ∃ layers', ofElements resources options es' = .ok layers' ∧ layers.Perm layers' := by
  induction hperm generalizing layers with
  | nil => exact ⟨layers, h, .refl _⟩
  | cons e _ ih =>
    obtain ⟨layer, rest, hlayer, hrest, rfl⟩ := ofElements_cons_eq_ok_iff.1 h
    obtain ⟨rest', hrest', hperm'⟩ := ih hrest
    exact ⟨_, ofElements_cons_eq_ok_iff.2 ⟨layer, rest', hlayer, hrest', rfl⟩, hperm'.append_left _⟩
  | swap e e' es =>
    obtain ⟨first, _, hfirst, htail, rfl⟩ := ofElements_cons_eq_ok_iff.1 h
    obtain ⟨second, rest, hsecond, hrest, rfl⟩ := ofElements_cons_eq_ok_iff.1 htail
    refine ⟨_, ofElements_cons_eq_ok_iff.2 ⟨second, _, hsecond,
      ofElements_cons_eq_ok_iff.2 ⟨first, rest, hfirst, hrest, rfl⟩, rfl⟩, ?_⟩
    rw [← List.append_assoc, ← List.append_assoc]
    exact List.perm_append_comm.append_right rest
  | trans _ _ ih ih' =>
    obtain ⟨layers', h', hperm'⟩ := ih h
    obtain ⟨layers'', h'', hperm''⟩ := ih' h'
    exact ⟨layers'', h'', hperm'.trans hperm''⟩

end Layer

namespace Accumulated

theorem addLayer_eq_add (knockout : Bool) (p : Point K) (acc : Accumulated K)
    (l : Layer K × GraphicsState K) :
    acc.addLayer knockout p l = acc.add knockout (Layer.colorAt p l) (Layer.coverageAt p l) := by
  unfold addLayer Layer.colorAt Layer.coverageAt
  cases l.1.sample? p with
  | none =>
    rw [Option.elim_none, Option.elim_none, zero_mul, add_zero_coverage]
  | some x => rfl

/-- What a layer leaves uncovered is left of what was uncovered before. -/
theorem one_sub_coverage_add (acc : Accumulated K) (rgb : Rgb K) {a : K} (ha : 0 ≤ a) :
    1 - (acc.add false rgb a).coverage = (1 - acc.coverage) * (1 - a) := by
  rcases ha.eq_or_lt with rfl | hpos
  · rw [add_zero_coverage, sub_zero, mul_one]
  · rw [add_of_pos _ _ _ hpos]
    change 1 - (a + acc.coverage * (1 - a)) = (1 - acc.coverage) * (1 - a)
    ring

theorem one_sub_coverage_foldl {p : Point K} {layers : List (Layer K × GraphicsState K)}
    (h : ∀ l ∈ layers, InUnit (Layer.coverageAt p l)) (acc : Accumulated K) :
    1 - (layers.foldl (addLayer false p) acc).coverage =
      (1 - acc.coverage) * (layers.map fun l => 1 - Layer.coverageAt p l).prod := by
  induction layers generalizing acc with
  | nil => rw [List.foldl_nil, List.map_nil, List.prod_nil, mul_one]
  | cons l layers ih =>
    have ha : 0 ≤ Layer.coverageAt p l := (h l List.mem_cons_self).1
    rw [List.foldl_cons, ih fun l' hl' => h l' (List.mem_cons_of_mem _ hl'), addLayer_eq_add,
      one_sub_coverage_add _ _ ha, List.map_cons, List.prod_cons, mul_assoc]

theorem addLayer_knockout (p : Point K) (acc : Accumulated K) (l : Layer K × GraphicsState K) :
    acc.addLayer true p l = if 0 < Layer.coverageAt p l then Layer.premultiplied p l else acc := by
  rw [addLayer_eq_add]
  split
  · rw [add_of_pos _ _ _ ‹_›]
    rfl
  · exact if_pos (not_lt.1 ‹_›)

theorem foldl_knockout (p : Point K) (layers : List (Layer K × GraphicsState K))
    (acc : Accumulated K) :
    layers.foldl (addLayer true p) acc =
      (Layer.topmost? p layers).elim acc (Layer.premultiplied p) := by
  -- From the right: the last layer that covers anything hides how the fold has begun.
  induction layers using List.reverseRecOn with
  | nil => rfl
  | append_singleton layers l ih =>
    rw [List.foldl_append, List.foldl_cons, List.foldl_nil, addLayer_knockout, ih,
      Layer.topmost?_append_singleton]
    split <;> rfl

structure IsPremultiplied (acc : Accumulated K) : Prop where
  coverage : InUnit acc.coverage
  r : 0 ≤ acc.color.r ∧ acc.color.r ≤ acc.coverage
  g : 0 ≤ acc.color.g ∧ acc.color.g ≤ acc.coverage
  b : 0 ≤ acc.color.b ∧ acc.color.b ≤ acc.coverage

namespace IsPremultiplied

theorem of_color {rgb : Rgb K} (hrgb : rgb.InGamut) {a : K} (ha : InUnit a) :
    IsPremultiplied ⟨rgb.map (· * a), a⟩ := by
  have hchannel : ∀ {c : K}, InUnit c → 0 ≤ c * a ∧ c * a ≤ a := fun hc =>
    ⟨mul_nonneg hc.1 ha.1, mul_le_of_le_one_left ha.1 hc.2⟩
  exact ⟨ha, hchannel hrgb.r, hchannel hrgb.g, hchannel hrgb.b⟩

theorem background {backdrop : Option (Rgb K)} (h : ∀ rgb ∈ backdrop, rgb.InGamut) :
    (SoftMaskGroup.background backdrop).IsPremultiplied := by
  cases backdrop with
  | none => exact ⟨inUnit_zero, ⟨le_rfl, le_rfl⟩, ⟨le_rfl, le_rfl⟩, ⟨le_rfl, le_rfl⟩⟩
  | some rgb =>
    have hrgb : rgb.InGamut := h rgb rfl
    exact ⟨inUnit_one, hrgb.r, hrgb.g, hrgb.b⟩

variable {acc : Accumulated K}

theorem add (h : acc.IsPremultiplied) (knockout : Bool) {rgb : Rgb K} (hrgb : rgb.InGamut) {a : K}
    (ha : InUnit a) : (acc.add knockout rgb a).IsPremultiplied := by
  rcases ha.1.eq_or_lt with rfl | hpos
  · rwa [add_zero_coverage]
  cases knockout with
  | true =>
    rw [add_of_pos _ _ _ hpos]
    exact of_color hrgb ha
  | false =>
    have hkeep : 0 ≤ 1 - a := sub_nonneg.2 ha.2
    have hchannel : ∀ {c x : K}, InUnit c → 0 ≤ x ∧ x ≤ acc.coverage →
        0 ≤ c * a + x * (1 - a) ∧ c * a + x * (1 - a) ≤ a + acc.coverage * (1 - a) := by
      intro c x hc hx
      exact ⟨add_nonneg (mul_nonneg hc.1 ha.1) (mul_nonneg hx.1 hkeep),
        add_le_add (mul_le_of_le_one_left ha.1 hc.2) (mul_le_mul_of_nonneg_right hx.2 hkeep)⟩
    -- What is left uncovered is a product, and so easier to bound than the coverage.
    have huncovered : InUnit (1 - (acc.add false rgb a).coverage) := by
      rw [one_sub_coverage_add _ _ ha.1]
      exact inUnit_mul (inUnit_complement h.coverage) (inUnit_complement ha)
    have hcoverage : InUnit (acc.add false rgb a).coverage := by
      rw [← sub_sub_cancel 1 (acc.add false rgb a).coverage]
      exact inUnit_complement huncovered
    rw [add_of_pos _ _ _ hpos] at hcoverage ⊢
    exact ⟨hcoverage, hchannel hrgb.r h.r, hchannel hrgb.g h.g, hchannel hrgb.b h.b⟩

theorem foldl (h : acc.IsPremultiplied) (knockout : Bool) {p : Point K}
    {layers : List (Layer K × GraphicsState K)} (hlayers : ∀ l ∈ layers, Layer.InGamut p l) :
    (layers.foldl (addLayer knockout p) acc).IsPremultiplied := by
  induction layers generalizing acc with
  | nil => exact h
  | cons l layers ih =>
    have hl : Layer.InGamut p l := hlayers l List.mem_cons_self
    refine ih ?_ fun l' hl' => hlayers l' (List.mem_cons_of_mem _ hl')
    rw [addLayer_eq_add]
    exact h.add knockout hl.color hl.coverage

end IsPremultiplied
end Accumulated

namespace SoftMaskGroup

theorem inGamut_backdropColor? {g : SoftMaskGroup K} {backdrop : Option (Rgb K)}
    (h : g.backdropColor? = .ok backdrop) : ∀ rgb ∈ backdrop, rgb.InGamut := by
  rintro rgb rfl
  have hspace : ∀ (space : ColorSpace) components,
      (Except.ok (some (space.toRgb components)) : Except (Fault K) _) = .ok (some rgb) →
        rgb.InGamut := by
    intro space components heq
    rw [← Option.some.inj (Except.ok.inj heq)]
    exact ColorSpace.inGamut_toRgb space components
  unfold backdropColor? at h
  split at h
  · dsimp only at h
    split at h
    · split at h
      · exact hspace _ _ h
      · split at h
        · exact hspace _ _ h
        · exact absurd h (by simp)
    · split at h
      · exact hspace _ _ h
      · exact absurd h (by simp)
  · exact absurd h (by simp)

def accumulated (g : SoftMaskGroup K) (backdrop : Option (Rgb K))
    (layers : List (Layer K × GraphicsState K)) (p : Point K) : Accumulated K :=
  layers.foldl (Accumulated.addLayer g.knockout p) (background backdrop)

theorem getElem?_alphaBytes (g : SoftMaskGroup K) (bbox : Rect K) {width height : Nat}
    (backdrop : Option (Rgb K)) (layers : List (Layer K × GraphicsState K)) {col row : Nat}
    (hcol : col < width) (hrow : row < height) :
    (g.alphaBytes bbox width height (background backdrop) layers)[row * width + col]? =
      some ((g.accumulated backdrop layers
        (bbox.placement.apply (Grid.center width height col row))).toAlpha g.kind) := by
  unfold alphaBytes
  rw [List.getElem?_toArray]
  exact Grid.getElem?_tabulate _ hcol hrow

section Over
variable {g : SoftMaskGroup K} {layers layers' : List (Layer K × GraphicsState K)}

theorem coverage_accumulated (hknockout : g.knockout = false) {p : Point K}
    (h : ∀ l ∈ layers, InUnit (Layer.coverageAt p l)) :
    (g.accumulated none layers p).coverage =
      1 - (layers.map fun l => 1 - Layer.coverageAt p l).prod := by
  have huncovered := Accumulated.one_sub_coverage_foldl h (background none)
  have hstart : (background (none : Option (Rgb K))).coverage = 0 := rfl
  rw [hstart, sub_zero, one_mul, ← hknockout] at huncovered
  rw [← huncovered, sub_sub_cancel]
  rfl

theorem alphaBytes_perm (hkind : g.kind = .alpha) (hknockout : g.knockout = false)
    (h : ∀ l ∈ layers, ∀ p, InUnit (Layer.coverageAt p l)) (hperm : layers.Perm layers')
    (bbox : Rect K) (width height : Nat) :
    g.alphaBytes bbox width height (background none) layers' =
      g.alphaBytes bbox width height (background none) layers := by
  have hpixel : ∀ p, (g.accumulated none layers' p).toAlpha g.kind =
      (g.accumulated none layers p).toAlpha g.kind := by
    intro p
    -- Layers do not commute, for their colours do not, but the coverage has a product for a value.
    have hprod := (hperm.map fun l => 1 - Layer.coverageAt p l).prod_eq
    have hlayers : ∀ l ∈ layers, InUnit (Layer.coverageAt p l) := fun l hl => h l hl p
    have hlayers' : ∀ l ∈ layers', InUnit (Layer.coverageAt p l) :=
      fun l hl => h l (hperm.mem_iff.2 hl) p
    rw [hkind]
    change toByte (g.accumulated none layers' p).coverage =
      toByte (g.accumulated none layers p).coverage
    rw [coverage_accumulated hknockout hlayers, coverage_accumulated hknockout hlayers', hprod]
  unfold alphaBytes
  exact congrArg (fun f => (Grid.tabulate width height f).toArray)
    (funext fun col => funext fun row => hpixel _)

theorem composite_perm {bbox : Rect K} {options : Options K} {es es' : List (Element K)}
    {grid : Nat × Nat × Array UInt8} (hkind : g.kind = .alpha) (hknockout : g.knockout = false)
    (hperm : es.Perm es') (h : g.composite bbox es options = .ok grid) :
    g.composite bbox es' options = .ok grid := by
  obtain ⟨hsize, layers, backdrop, hlayers, hbackdrop, hbytes⟩ := composite_eq_ok_iff.1 h
  obtain ⟨layers', hlayers', hperm'⟩ := Layer.ofElements_perm hperm hlayers
  obtain rfl := backdrop_of_alpha hkind hbackdrop
  refine composite_eq_ok_iff.2 ⟨hsize, layers', none, hlayers', hbackdrop, ?_⟩
  rw [← hbytes]
  have hcoverages : ∀ l ∈ layers, ∀ p, InUnit (Layer.coverageAt p l) :=
    fun l hl p => (Layer.inGamut_ofElements hlayers l hl p).coverage
  exact alphaBytes_perm hkind hknockout hcoverages hperm' ..

end Over

/-- Layers that cover parts of a point accumulate to a closed form there: to all but the product of
what they leave uncovered, if they are laid over each other and nothing is behind them, and to what
the topmost one leaves alone, if they knock each other out. The coverage is always a part of the
point, and the channels are parts of the coverage, if the colours are in gamut. Every grid comes
from layers that are like this everywhere, and that of an alpha group is the same for every order of
the elements. -/
theorem composite_closedForm (g : SoftMaskGroup K) (bbox : Rect K) (options : Options K) :
    (∀ layers backdrop, g.backdropColor? = .ok backdrop → ∀ p,
      let acc := g.accumulated backdrop layers p
      (g.knockout = false → backdrop = none → (∀ l ∈ layers, InUnit (Layer.coverageAt p l)) →
        acc.coverage = 1 - (layers.map fun l => 1 - Layer.coverageAt p l).prod) ∧
      (g.knockout = true →
        acc = (Layer.topmost? p layers).elim (background backdrop) (Layer.premultiplied p)) ∧
      ((∀ l ∈ layers, Layer.InGamut p l) → acc.IsPremultiplied)) ∧
    (∀ es width height bytes, g.composite bbox es options = .ok (width, height, bytes) →
      ∃ layers backdrop, Layer.ofElements g.resources options es = .ok layers ∧
        g.backdropColor? = .ok backdrop ∧ (∀ l ∈ layers, ∀ p, Layer.InGamut p l) ∧
        bytes.size = width * height ∧ ∀ col < width, ∀ row < height,
          bytes[row * width + col]? = some ((g.accumulated backdrop layers
            (bbox.placement.apply (Grid.center width height col row))).toAlpha g.kind)) ∧
    (g.kind = .alpha → g.knockout = false → ∀ es es', es.Perm es' → ∀ grid,
      g.composite bbox es options = .ok grid ↔ g.composite bbox es' options = .ok grid) := by
  refine ⟨?_, ?_, ?_⟩
  · intro layers backdrop hbackdrop p acc
    refine ⟨?_, ?_, ?_⟩
    · rintro hknockout rfl hlayers
      exact coverage_accumulated hknockout hlayers
    · intro hknockout
      rw [← Accumulated.foldl_knockout, ← hknockout]
      rfl
    · exact (Accumulated.IsPremultiplied.background (inGamut_backdropColor? hbackdrop)).foldl
        g.knockout
  · intro es width height bytes h
    obtain ⟨-, layers, backdrop, hlayers, hbackdrop, rfl⟩ := composite_eq_ok_iff.1 h
    refine ⟨layers, backdrop, hlayers, hbackdrop, Layer.inGamut_ofElements hlayers,
      (fills_of_composite h).2, ?_⟩
    intro col hcol row hrow
    exact g.getElem?_alphaBytes bbox backdrop layers hcol hrow
  · intro hkind hknockout es es' hperm grid
    exact ⟨composite_perm hkind hknockout hperm, composite_perm hkind hknockout hperm.symm⟩

/-- A fill of alpha one half over one of alpha one third. -/
theorem composite_closedForm_twoFills :
    let g := squareGroup ""
    let es := squareFill { GraphicsState.initial with fillAlpha := 1 / 3 } ++
      squareFill { GraphicsState.initial with fillAlpha := 1 / 2 }
    let p : Point ℚ := ⟨1 / 2, 3 / 2⟩
    let bytes : Array UInt8 := #[170, 170, 170, 170]
    g.composite ⟨0, 0, 2, 2⟩ es.reverse coarse = .ok (2, 2, bytes) ∧
      ∃ layers, Layer.ofElements g.resources coarse es = .ok layers ∧
        layers.map (Layer.coverageAt p) = [1 / 3, 1 / 2] ∧
        (g.accumulated none layers p).coverage = 1 - (1 - 1 / 3) * (1 - 1 / 2) ∧
        ({ g with knockout := true }.accumulated none layers p).coverage = 1 / 2 ∧
        ({ g with knockout := true }.accumulated none layers p).IsPremultiplied := by
  intro g es p bytes
  obtain ⟨hpoint, hpixels, horder⟩ := composite_closedForm g ⟨0, 0, 2, 2⟩ coarse
  have hgrid : g.composite ⟨0, 0, 2, 2⟩ es coarse = .ok (2, 2, bytes) := by decide +kernel
  refine ⟨(horder rfl rfl es es.reverse (List.reverse_perm es).symm _).1 hgrid, ?_⟩
  obtain ⟨layers, backdrop, hlayers, hbackdrop, hgamut, -⟩ := hpixels es 2 2 bytes hgrid
  obtain rfl := backdrop_of_alpha rfl hbackdrop
  have hcoverages : layers.map (Layer.coverageAt p) = [1 / 3, 1 / 2] := by
    obtain rfl := Except.ok.inj hlayers
    decide +kernel
  obtain ⟨hover, -, -⟩ := hpoint layers none hbackdrop p
  obtain ⟨-, hlast, hpremultiplied⟩ := (composite_closedForm { g with knockout := true }
    ⟨0, 0, 2, 2⟩ coarse).1 layers none hbackdrop p
  refine ⟨layers, hlayers, hcoverages, ?_, ?_, hpremultiplied fun l hl => hgamut l hl p⟩
  · have hproduct : (layers.map fun l => 1 - Layer.coverageAt p l) =
        (layers.map (Layer.coverageAt p)).map (1 - ·) := by
      rw [List.map_map]
      rfl
    rw [hover rfl rfl fun l hl => (hgamut l hl p).coverage, hproduct, hcoverages]
    norm_num
  · rw [hlast rfl]
    obtain rfl := Except.ok.inj hlayers
    decide +kernel

end SoftMaskGroup
end ContentStream
