import Mathlib
import ContentStream.Raster.Composite
import ContentStream.Raster.Shading

set_option autoImplicit false

namespace ContentStream

namespace Grid
variable {K : Type}

structure Fits (budget width height : Nat) : Prop where
  width_pos : 0 < width
  height_pos : 0 < height
  longer : max width height = budget

theorem fits_of_size? [Scalar K] {width height : K} {budget w h : Nat}
    (hsize : size? width height budget = some (w, h)) : Fits budget w h := by
  have hshort : ∀ n : Nat, 0 < budget →
      0 < Nat.min budget (Nat.max 1 n) ∧ Nat.min budget (Nat.max 1 n) ≤ budget := by
    intro n hbudget
    have hone : 1 ≤ Nat.max 1 n := Nat.le_max_left 1 n
    exact ⟨Nat.lt_min.2 ⟨hbudget, hone⟩, Nat.min_le_left _ _⟩
  unfold size? at hsize
  split at hsize
  · exact absurd hsize (by simp)
  rename_i hbudget
  have hpos : 0 < budget := by
    simp only [Bool.or_eq_true, beq_iff_eq, not_or] at hbudget
    exact Nat.pos_of_ne_zero hbudget.1.1
  split at hsize
  · exact absurd hsize (by simp)
  dsimp only at hsize
  split at hsize
  · obtain ⟨rfl, rfl⟩ := Prod.mk.inj (Option.some.inj hsize)
    obtain ⟨h0, hle⟩ := hshort _ hpos
    exact ⟨hpos, h0, max_eq_left hle⟩
  · obtain ⟨rfl, rfl⟩ := Prod.mk.inj (Option.some.inj hsize)
    obtain ⟨h0, hle⟩ := hshort _ hpos
    exact ⟨h0, hpos, max_eq_right hle⟩

theorem length_tabulate {α : Type} (width height : Nat) (f : Nat → Nat → α) :
    (tabulate width height f).length = width * height := by
  simp [tabulate]

theorem index_lt {width height col row : Nat} (hcol : col < width) (hrow : row < height) :
    row * width + col < width * height := by
  have hle : (row + 1) * width ≤ height * width := Nat.mul_le_mul_right width hrow
  rw [Nat.succ_mul] at hle
  rw [Nat.mul_comm width height]
  omega

theorem tabulate_congr {α : Type} {width height : Nat} {f g : Nat → Nat → α}
    (h : ∀ col < width, ∀ row < height, f col row = g col row) :
    tabulate width height f = tabulate width height g := by
  refine List.map_congr_left fun i hi => h _ ?_ _ ?_
  · exact Nat.mod_lt _ (Nat.pos_of_mul_pos_right (Nat.zero_lt_of_lt (List.mem_range.1 hi)))
  · exact Nat.div_lt_of_lt_mul (List.mem_range.1 hi)

theorem getElem?_tabulate {α : Type} {width height col row : Nat} (f : Nat → Nat → α)
    (hcol : col < width) (hrow : row < height) :
    (tabulate width height f)[row * width + col]? = some (f col row) := by
  have hlt := index_lt hcol hrow
  have hmod : (row * width + col) % width = col := by
    rw [Nat.mul_comm, Nat.mul_add_mod, Nat.mod_eq_of_lt hcol]
  have hdiv : (row * width + col) / width = row := by
    rw [Nat.mul_comm, Nat.mul_add_div (Nat.zero_lt_of_lt hcol), Nat.div_eq_of_lt hcol, add_zero]
  simp only [tabulate, List.getElem?_map, List.getElem?_range hlt, Option.map_some, hmod, hdiv]

theorem mem_tabulate {α : Type} {width height : Nat} {f : Nat → Nat → α} {x : α} :
    x ∈ tabulate width height f ↔ ∃ col < width, ∃ row < height, f col row = x := by
  constructor
  · intro hx
    obtain ⟨i, hi, rfl⟩ := List.mem_map.1 hx
    have hlt : i < width * height := List.mem_range.1 hi
    have hwidth : 0 < width := Nat.pos_of_mul_pos_right (Nat.zero_lt_of_lt hlt)
    exact ⟨i % width, Nat.mod_lt i hwidth, i / width, Nat.div_lt_of_lt_mul hlt, rfl⟩
  · rintro ⟨col, hcol, row, hrow, rfl⟩
    exact List.mem_of_getElem? (getElem?_tabulate f hcol hrow)

end Grid

namespace Rgba

def ofBytes : List UInt8 → Rgba
  | [r, g, b, a] => ⟨r, g, b, a⟩
  | _ => transparent

theorem drop_flatten {l : List (List UInt8)} (hl : ∀ x ∈ l, x.length = 4) (i : Nat) :
    l.flatten.drop (i * 4) = (l.drop i).flatten := by
  induction i generalizing l with
  | zero => rw [Nat.zero_mul, List.drop_zero, List.drop_zero]
  | succ i ih =>
    cases l with
    | nil => simp
    | cons x l =>
      have hx : x.length = 4 := hl x List.mem_cons_self
      have hrest := ih fun y hy => hl y (List.mem_cons_of_mem _ hy)
      rw [List.flatten_cons, List.drop_succ_cons, ← hrest, Nat.succ_mul, Nat.add_comm,
        ← List.drop_drop, List.drop_append_of_le_length hx.ge, List.drop_of_length_le hx.le,
        List.nil_append]

theorem size_flatten {l : List (List UInt8)} (hl : ∀ x ∈ l, x.length = 4) :
    l.flatten.toArray.size = l.length * 4 := by
  rw [List.size_toArray, List.length_flatten, List.map_congr_left hl, List.map_const',
    List.sum_replicate, smul_eq_mul]

theorem ofBuffer_flatten {l : List (List UInt8)} (hl : ∀ x ∈ l, x.length = 4) {width col row : Nat}
    {x : List UInt8} (hx : l[row * width + col]? = some x) :
    ofBuffer l.flatten.toArray width col row = ofBytes x := by
  have hlen : x.length = 4 := hl x (List.mem_of_getElem? hx)
  obtain ⟨hlt, hget⟩ := List.getElem?_eq_some_iff.1 hx
  have hsize : (row * width + col) * 4 + 4 ≤ l.flatten.toArray.size := by
    rw [size_flatten hl, ← Nat.succ_mul]
    exact Nat.mul_le_mul_right 4 hlt
  have hdrop : l.flatten.drop ((row * width + col) * 4) =
      x ++ (l.drop (row * width + col + 1)).flatten := by
    rw [drop_flatten hl, List.drop_eq_getElem_cons hlt, hget, List.flatten_cons]
  have hbyte : ∀ j, l.flatten.toArray.getD ((row * width + col) * 4 + j) 0 =
      (x ++ (l.drop (row * width + col + 1)).flatten).getD j 0 := by
    intro j
    rw [← hdrop, List.getD_eq_getElem?_getD, List.getElem?_drop, ← List.getElem?_toArray]
    exact Array.getD_eq_getD_getElem? ..
  obtain ⟨r, g, b, a, rfl⟩ : ∃ r g b a, x = [r, g, b, a] := by
    match x, hlen with
    | [r, g, b, a], _ => exact ⟨r, g, b, a, rfl⟩
  unfold ofBuffer
  dsimp only
  rw [if_pos hsize, hbyte 1, hbyte 2, hbyte 3]
  rw [← Nat.add_zero ((row * width + col) * 4), hbyte 0]
  rfl

theorem buffer_tabulate (width height : Nat) {bytesAt : Nat → Nat → List UInt8}
    (hbytes : ∀ col row, (bytesAt col row).length = 4) :
    (Grid.tabulate width height bytesAt).flatten.toArray.size = width * height * 4 ∧
      ∀ col < width, ∀ row < height,
        ofBuffer (Grid.tabulate width height bytesAt).flatten.toArray width col row =
          ofBytes (bytesAt col row) := by
  have hcells : ∀ x ∈ Grid.tabulate width height bytesAt, x.length = 4 := by
    intro x hx
    obtain ⟨i, -, rfl⟩ := List.mem_map.1 hx
    exact hbytes ..
  constructor
  · rw [size_flatten hcells, Grid.length_tabulate]
  · intro col hcol row hrow
    exact ofBuffer_flatten hcells (Grid.getElem?_tabulate _ hcol hrow)

end Rgba

variable {K : Type} [Scalar K]

theorem Shading.length_pixel (d : Shading K) (toShading : Transform K) (coverage : K)
    (p : Point K) : (d.pixel toShading coverage p).length = 4 := by
  unfold Shading.pixel
  dsimp only
  split <;> rfl

theorem Sampler.length_maskedPixel (s : Sampler K) (m constant : K) (p : Point K) :
    (s.maskedPixel m constant p).length = 4 := by
  unfold Sampler.maskedPixel
  split
  · split <;> rfl
  · rfl

/-- The raster holds exactly the pixels that `pixelAt` gives for the cells of its grid. -/
structure RasterImage.Holds (r : RasterImage K) (pixelAt : Point K → Nat → Nat → List UInt8) :
    Prop where
  size : r.pixels.size = r.width * r.height * 4
  pixel : ∀ col < r.width, ∀ row < r.height, r.pixel col row =
    .ofBytes (pixelAt (r.state.ctm.apply (Grid.center r.width r.height col row)) col row)

theorem RasterImage.holds_tabulate (pixelAt : Point K → Nat → Nat → List UInt8)
    (hpixel : ∀ p col row, (pixelAt p col row).length = 4) (width height : Nat)
    (space : ColorSpace) (state : GraphicsState K) :
    RasterImage.Holds
      ⟨((Grid.tabulate width height fun col row =>
        pixelAt (state.ctm.apply (Grid.center width height col row)) col row).flatten).toArray,
        width, height, space, state⟩ pixelAt := by
  obtain ⟨hsize, hread⟩ := Rgba.buffer_tabulate width height fun col row =>
    hpixel (state.ctm.apply (Grid.center width height col row)) col row
  exact ⟨hsize, hread⟩

def insidePath (path : Option (List (Subpath K) × FillRule)) (p : Point K) : Bool :=
  match path with
  | none => true
  | some (subpaths, rule) => fillContains subpaths rule p

/-- A shading gives each pixel the colour at its centre, covered as far as the clip allows. -/
theorem Shading.rasterize?_spec {d : Shading K} {toPage : Transform K} {region : Rect K}
    {path : Option (List (Subpath K) × FillRule)} {budget : Nat} {state : GraphicsState K}
    {r : RasterImage K} (h : d.rasterize? toPage region path budget state = some r) :
    Grid.Fits budget r.width r.height ∧ r.state = { state with ctm := region.placement } ∧
    ∃ toShading, region.isDrawable = true ∧ toPage.inverse? = some toShading ∧
      r.Holds fun p _ _ =>
        d.pixel toShading (if insidePath path p then state.clipCoverage p else 0) p := by
  unfold Shading.rasterize? at h
  split at h
  · rename_i hdrawable
    split at h
    · rename_i width height toShading hsize hinverse
      obtain rfl := Option.some.inj h
      refine ⟨Grid.fits_of_size? hsize, rfl, toShading, hdrawable, hinverse, ?_⟩
      exact RasterImage.holds_tabulate
        (fun p _ _ => d.pixel toShading (if insidePath path p then state.clipCoverage p else 0) p)
        (fun p _ _ => d.length_pixel toShading _ p) _ _ _ { state with ctm := region.placement }
    · exact absurd h (by simp)
  · exact absurd h (by simp)

def GraphicsState.throughMask (g : GraphicsState K) (m : Mask K) : GraphicsState K :=
  let painted : GraphicsState K :=
    { g.clearSoftMask with ctm := m.matrix, fillAlpha := 1, strokeAlpha := 1 }
  painted.clearFillPattern

/-- A masked element gives each pixel of its mask what it paints there, under the mask and the
clip. -/
theorem Element.rasterizeMasked?_spec {e : Element K} {r : RasterImage K}
    (h : e.rasterizeMasked? = some r) :
    ∃ m sampler, e.state.softMask = some m ∧ Sampler.ofElement? e = some sampler ∧
      r.width = m.width ∧ r.height = m.height ∧ r.state = e.state.throughMask m ∧
      r.Holds fun p col row => sampler.maskedPixel
        (Scalar.ofByte (m.get col row) * e.state.clipCoverage p)
        (Scalar.clampUnit e.state.softMaskAlpha) p := by
  obtain ⟨m, hm, h⟩ := Option.bind_eq_some_iff.1 h
  split at h
  · obtain ⟨sampler, hsampler, rfl⟩ := Option.map_eq_some_iff.1 h
    refine ⟨m, sampler, hm, hsampler, rfl, rfl, rfl, ?_⟩
    exact RasterImage.holds_tabulate
      (fun p col row => sampler.maskedPixel
        (Scalar.ofByte (m.get col row) * e.state.clipCoverage p)
        (Scalar.clampUnit e.state.softMaskAlpha) p)
      (fun p _ _ => sampler.length_maskedPixel _ _ p) _ _ _ (e.state.throughMask m)
  · exact absurd h (by simp)

theorem Element.rasterizeMasked?_isSome {e : Element K} {m : Mask K}
    (hm : e.state.softMask = some m) (hconsistent : m.isConsistent = true) :
    e.rasterizeMasked?.isSome = (Sampler.ofElement? e).isSome := by
  unfold Element.rasterizeMasked?
  rw [hm, Option.bind_some, if_pos hconsistent, Option.isSome_map]

theorem SoftMaskGroup.composite_eq_ok_iff {g : SoftMaskGroup K} {bbox : Rect K}
    {es : List (Element K)} {options : Options K} {width height : Nat} {bytes : Array UInt8} :
    g.composite bbox es options = .ok (width, height, bytes) ↔
      Grid.size? (bbox.x1 - bbox.x0) (bbox.y1 - bbox.y0) options.softMaskBudget =
          some (width, height) ∧
        ∃ layers backdrop, Layer.ofElements g.resources options es = .ok layers ∧
          g.backdropColor? = .ok backdrop ∧
          g.alphaBytes bbox width height (background backdrop) layers = bytes := by
  unfold composite
  cases Grid.size? (bbox.x1 - bbox.x0) (bbox.y1 - bbox.y0) options.softMaskBudget with
  | none => simp
  | some size =>
    cases Layer.ofElements g.resources options es with
    | error fault => simp
    | ok layers =>
      cases g.backdropColor? with
      | error fault => simp
      | ok backdrop =>
        obtain ⟨w, h⟩ := size
        simp only [Except.ok.injEq, Prod.mk.injEq, Option.some.injEq, and_assoc]
        constructor
        · rintro ⟨rfl, rfl, rfl⟩
          exact ⟨rfl, rfl, layers, backdrop, rfl, rfl, rfl⟩
        · rintro ⟨rfl, rfl, layers', backdrop', rfl, rfl, rfl⟩
          exact ⟨rfl, rfl, rfl⟩

end ContentStream
