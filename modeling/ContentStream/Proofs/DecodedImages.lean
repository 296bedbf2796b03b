import Mathlib
import ContentStream.Image
import ContentStream.Proofs.MaskedElements
import ContentStream.Proofs.Pixels

set_option autoImplicit false

namespace ContentStream
open Scalar

def Rgba.color (p : Rgba) : List UInt8 := [p.red, p.green, p.blue]

namespace ImageXObject
variable {K : Type}

def withData (i : ImageXObject) (data : Array UInt8) : ImageXObject :=
  .mk i.width i.height i.bitsPerComponent i.colorSpace i.filter data i.smask

def withoutAlpha (i : ImageXObject) : ImageXObject :=
  .mk i.width i.height i.bitsPerComponent i.colorSpace i.filter i.data none

def sampleBytes (i : ImageXObject) (col row : Nat) : List UInt8 :=
  let n := i.colorSpace.componentCount
  (i.data.toList.drop ((row * i.width + col) * n)).take n

def bitsOf (b : UInt8) : List Bool := (List.range 8).map b.toBitVec.getMsbD

def rowBits (i : ImageXObject) (row : Nat) : List Bool :=
  let stride := (i.width + 7) / 8
  ((i.data.toList.drop (row * stride)).take stride).flatMap bitsOf

/-- The samples have a form that is read without a filter, and none of them is missing. -/
def IsComplete (i : ImageXObject) : Prop :=
  0 < i.width ∧ 0 < i.height ∧ 0 < i.colorSpace.componentCount ∧
    (i.bitsPerComponent = 8 ∧ i.width * i.height * i.colorSpace.componentCount ≤ i.data.size ∨
      i.bitsPerComponent = 1 ∧ i.colorSpace = .gray ∧
        (i.width + 7) / 8 * i.height ≤ i.data.size)

instance (i : ImageXObject) : Decidable i.IsComplete :=
  inferInstanceAs <| Decidable <| 0 < i.width ∧ 0 < i.height ∧
    0 < i.colorSpace.componentCount ∧
      (i.bitsPerComponent = 8 ∧
          i.width * i.height * i.colorSpace.componentCount ≤ i.data.size ∨
        i.bitsPerComponent = 1 ∧ i.colorSpace = .gray ∧
          (i.width + 7) / 8 * i.height ≤ i.data.size)

/-! ## Samples without a filter -/

section Samples
variable [Scalar K]

def pixelBytes (K : Type) [Scalar K] (i : ImageXObject) (col row : Nat) : List UInt8 :=
  if i.bitsPerComponent = 8 then
    bytePixel K i.colorSpace
      (sampleGroup i.data i.colorSpace.componentCount (row * i.width + col))
  else bitPixel (bit i.data ((i.width + 7) / 8) col row)

theorem length_pixelBytes (i : ImageXObject) (col row : Nat) :
    (i.pixelBytes K col row).length = 4 := by
  unfold pixelBytes
  split <;> rfl

theorem alpha_pixelBytes (i : ImageXObject) (col row : Nat) :
    (Rgba.ofBytes (i.pixelBytes K col row)).alpha = 255 := by
  unfold pixelBytes
  split <;> rfl

theorem flatMap_range {α : Type} (width height : Nat) (f : Nat → List α) :
    (List.range (width * height)).flatMap f =
      (Grid.tabulate width height fun col row => f (row * width + col)).flatten := by
  simp only [Grid.tabulate, Nat.div_add_mod', List.flatMap]

theorem flatMap_tabulate {α β : Type} (width height : Nat) (f : Nat → Nat → α)
    (g : α → List β) : (Grid.tabulate width height f).flatMap g =
      (Grid.tabulate width height fun col row => g (f col row)).flatten := by
  simp only [Grid.tabulate, List.flatMap, List.map_map, Function.comp_def]

/-- Reading succeeds exactly on complete samples, and then shows one pixel for each place. -/
theorem decodeRaw_eq_ok_iff {i : ImageXObject} {image : DecodedImage} :
    decodeRaw (K := K) i = .ok image ↔ i.IsComplete ∧
      ⟨i.width, i.height,
        (Grid.tabulate i.width i.height (i.pixelBytes K)).flatten.toArray⟩ = image := by
  unfold decodeRaw IsComplete
  dsimp only
  by_cases hempty : i.width = 0 ∨ i.height = 0
  · rw [if_pos hempty]
    simp only [reduceCtorEq, false_iff]
    rintro ⟨⟨hwidth, hheight, -⟩, -⟩
    exact hempty.elim hwidth.ne' hheight.ne'
  by_cases hspace : i.colorSpace.componentCount = 0
  · rw [if_neg hempty, if_pos hspace]
    simp only [reduceCtorEq, false_iff]
    rintro ⟨⟨-, -, hcount, -⟩, -⟩
    exact hcount.ne' hspace
  rw [if_neg hempty, if_neg hspace]
  obtain ⟨hwidth, hheight⟩ : 0 < i.width ∧ 0 < i.height := by omega
  have hcount : 0 < i.colorSpace.componentCount := Nat.pos_of_ne_zero hspace
  by_cases hbytes : i.bitsPerComponent = 8
  · have hpixels : i.pixelBytes K = fun col row => bytePixel K i.colorSpace
        (sampleGroup i.data i.colorSpace.componentCount (row * i.width + col)) := by
      funext col row
      exact if_pos hbytes
    rw [if_pos hbytes, hpixels, flatMap_range]
    split
    · simp only [reduceCtorEq, false_iff]
      omega
    · rename_i henough
      simp only [Except.ok.injEq, iff_and_self]
      exact fun _ => ⟨hwidth, hheight, hcount, .inl ⟨hbytes, not_lt.1 henough⟩⟩
  by_cases hbits : i.bitsPerComponent = 1 ∧ i.colorSpace = .gray
  · have hpixels : i.pixelBytes K = fun col row =>
        bitPixel (bit i.data ((i.width + 7) / 8) col row) := by
      funext col row
      exact if_neg hbytes
    rw [if_neg hbytes, if_pos hbits, hpixels, flatMap_tabulate]
    split
    · simp only [reduceCtorEq, false_iff]
      omega
    · rename_i henough
      simp only [Except.ok.injEq, iff_and_self]
      exact fun _ => ⟨hwidth, hheight, hcount, .inr ⟨hbits.1, hbits.2, not_lt.1 henough⟩⟩
  · rw [if_neg hbytes, if_neg hbits]
    simp only [reduceCtorEq, false_iff]
    rintro ⟨⟨-, -, -, h | h⟩, -⟩
    · exact hbytes h.1
    · exact hbits ⟨h.1, h.2.1⟩

theorem sampleGroup_eq {i : ImageXObject} {col row : Nat}
    (henough : (row * i.width + col + 1) * i.colorSpace.componentCount ≤ i.data.size) :
    sampleGroup i.data i.colorSpace.componentCount (row * i.width + col) =
        i.sampleBytes col row ∧
      (i.sampleBytes col row).length = i.colorSpace.componentCount := by
  rw [Nat.succ_mul] at henough
  have hlength : (i.sampleBytes col row).length = i.colorSpace.componentCount := by
    rw [sampleBytes, List.length_take, List.length_drop, Array.length_toList]
    omega
  refine ⟨List.ext_getElem ?_ fun k hk hk' => ?_, hlength⟩
  · rw [hlength, sampleGroup, List.length_map, List.length_range]
  · rw [hlength] at hk'
    simp only [sampleGroup, sampleBytes, List.getElem_map, List.getElem_range, List.getElem_take,
      List.getElem_drop, Array.getElem_toList]
    rw [Array.getD_eq_getD_getElem?, Array.getElem?_eq_getElem (by omega), Option.getD_some]

theorem getElem?_flatMap_bitsOf (bytes : List UInt8) (p : Nat) :
    (bytes.flatMap bitsOf)[p]? = bytes[p / 8]?.map fun b => b.toNat.testBit (7 - p % 8) := by
  induction bytes generalizing p with
  | nil => simp
  | cons b bytes ih =>
    have hlength : (bitsOf b).length = 8 := by rw [bitsOf, List.length_map, List.length_range]
    rw [List.flatMap_cons]
    rcases lt_or_ge p 8 with hp | hp
    · rw [List.getElem?_append_left (by omega), Nat.div_eq_of_lt hp, Nat.mod_eq_of_lt hp, bitsOf,
        List.getElem?_map, List.getElem?_range hp, Option.map_some, BitVec.getMsbD_eq_getLsbD,
        ← BitVec.testBit_toNat, decide_eq_true hp, Bool.true_and]
      rfl
    · have hdiv : p / 8 = (p - 8) / 8 + 1 := by omega
      have hmod : (p - 8) % 8 = p % 8 := by omega
      rw [List.getElem?_append_right (by omega), hlength, ih, hmod, hdiv, List.getElem?_cons_succ]

theorem getElem?_rowBits {i : ImageXObject} {col row : Nat} (hcol : col < i.width)
    (henough : (row + 1) * ((i.width + 7) / 8) ≤ i.data.size) :
    (i.rowBits row)[col]? = some (bit i.data ((i.width + 7) / 8) col row) := by
  rw [Nat.succ_mul] at henough
  have hbyte : col / 8 < (i.width + 7) / 8 := by omega
  rw [rowBits, getElem?_flatMap_bitsOf, List.getElem?_take_of_lt hbyte, List.getElem?_drop,
    Array.getElem?_toList, Array.getElem?_eq_getElem (by omega), Option.map_some, bit,
    Array.getD_eq_getD_getElem?, Array.getElem?_eq_getElem (by omega), Option.getD_some]

theorem pixelBytes_of_bytes {i : ImageXObject} (h : i.IsComplete) (hbytes : i.bitsPerComponent = 8)
    {col row : Nat} (hcol : col < i.width) (hrow : row < i.height) :
    i.pixelBytes K col row = bytePixel K i.colorSpace (i.sampleBytes col row) ∧
      (i.sampleBytes col row).length = i.colorSpace.componentCount := by
  have hplace := Nat.mul_le_mul_right i.colorSpace.componentCount (Grid.index_lt hcol hrow)
  have henough : i.width * i.height * i.colorSpace.componentCount ≤ i.data.size := by
    rcases h with ⟨-, -, -, h | h⟩
    · exact h.2
    · exact absurd (hbytes.symm.trans h.1) (by decide)
  obtain ⟨hgroup, hlength⟩ := sampleGroup_eq (hplace.trans henough)
  rw [pixelBytes, if_pos hbytes, hgroup]
  exact ⟨rfl, hlength⟩

theorem pixelBytes_of_bits {i : ImageXObject} (h : i.IsComplete) (hbits : i.bitsPerComponent = 1)
    {col row : Nat} (hcol : col < i.width) (hrow : row < i.height) :
    ∃ on, (i.rowBits row)[col]? = some on ∧ i.pixelBytes K col row = bitPixel on := by
  have hbytes : i.bitsPerComponent ≠ 8 := hbits ▸ (by decide)
  have henough : (i.width + 7) / 8 * i.height ≤ i.data.size := by
    rcases h with ⟨-, -, -, h | h⟩
    · exact absurd h.1 hbytes
    · exact h.2.2
  rw [Nat.mul_comm] at henough
  have hrows := Nat.mul_le_mul_right ((i.width + 7) / 8) (Nat.succ_le_of_lt hrow)
  exact ⟨_, getElem?_rowBits hcol (hrows.trans henough), if_neg hbytes⟩

end Samples

/-- The other bytes have the same samples in all places. The rest of them may differ. -/
structure StoresSame (i : ImageXObject) (data : Array UInt8) : Prop where
  complete : (i.withData data).IsComplete
  bytes : i.bitsPerComponent = 8 → ∀ col < i.width, ∀ row < i.height,
    (i.withData data).sampleBytes col row = i.sampleBytes col row
  bits : i.bitsPerComponent = 1 → ∀ col < i.width, ∀ row < i.height,
    ((i.withData data).rowBits row)[col]? = (i.rowBits row)[col]?

section Samples
variable [Scalar K] {jpx : Option (JpxDecoder K)}

theorem StoresSame.pixelBytes_eq {i : ImageXObject} {data : Array UInt8} (h : i.StoresSame data)
    (hcomplete : i.IsComplete) {col row : Nat} (hcol : col < i.width) (hrow : row < i.height) :
    (i.withData data).pixelBytes K col row = i.pixelBytes K col row := by
  rcases hcomplete.2.2.2 with ⟨hbytes, -⟩ | ⟨hbits, -⟩
  · rw [(pixelBytes_of_bytes hcomplete hbytes hcol hrow).1,
      (pixelBytes_of_bytes h.complete hbytes hcol hrow).1, h.bytes hbytes col hcol row hrow]
    rfl
  · obtain ⟨on, hon, heq⟩ := pixelBytes_of_bits (K := K) hcomplete hbits hcol hrow
    obtain ⟨on', hon', heq'⟩ := pixelBytes_of_bits (K := K) h.complete hbits hcol hrow
    rw [h.bits hbits col hcol row hrow, hon] at hon'
    rw [heq, heq', Option.some.inj hon']

theorem decodeSamples_of_none {i : ImageXObject} (h : i.filter = .none) :
    decodeSamples jpx i = decodeRaw i := by
  unfold decodeSamples
  rw [h]

theorem decodeSamples_withData {i : ImageXObject} {data : Array UInt8}
    (hfilter : i.filter = .none) (hcomplete : i.IsComplete) (h : i.StoresSame data) :
    decodeSamples jpx (i.withData data) = decodeSamples jpx i := by
  have hpixels : Grid.tabulate i.width i.height ((i.withData data).pixelBytes K) =
      Grid.tabulate i.width i.height (i.pixelBytes K) :=
    Grid.tabulate_congr fun col hcol row hrow => h.pixelBytes_eq hcomplete hcol hrow
  have hraw : decodeRaw (K := K) i = .ok _ := decodeRaw_eq_ok_iff.2 ⟨hcomplete, rfl⟩
  have hraw' : decodeRaw (K := K) (i.withData data) = .ok _ :=
    decodeRaw_eq_ok_iff.2 ⟨h.complete, rfl⟩
  have hfilter' : (i.withData data).filter = .none := hfilter
  rw [decodeSamples_of_none hfilter, decodeSamples_of_none hfilter', hraw,
    hraw']
  change Except.ok (DecodedImage.mk i.width i.height
    (Grid.tabulate i.width i.height ((i.withData data).pixelBytes K)).flatten.toArray) = _
  rw [hpixels]

/-! ## The alpha image -/

theorem decode_withoutAlpha (i : ImageXObject) :
    i.withoutAlpha.decode jpx = decodeSamples jpx i := by
  have hsamples : decodeSamples jpx i.withoutAlpha = decodeSamples jpx i := rfl
  unfold decode
  rw [hsamples]
  cases decodeSamples jpx i <;> rfl

theorem decodeSamples_size {i : ImageXObject} {image : DecodedImage}
    (h : decodeSamples jpx i = .ok image) :
    image.width = i.width ∧ image.height = i.height ∧
      image.rgba.size = i.width * i.height * 4 := by
  unfold decodeSamples at h
  split at h
  · obtain ⟨-, rfl⟩ := decodeRaw_eq_ok_iff.1 h
    exact ⟨rfl, rfl, (Rgba.buffer_tabulate i.width i.height (length_pixelBytes i)).1⟩
  · split at h
    · cases h
    split at h
    · cases h
    split at h
    · cases h
    · rename_i hsize
      obtain rfl := Except.ok.inj h
      simp only [not_or, not_not] at hsize
      obtain ⟨hwidth, hheight, hbytes⟩ := hsize
      exact ⟨hwidth, hheight, hwidth ▸ hheight ▸ hbytes⟩
  · cases h

theorem getD_applyAlpha {rgba : Array UInt8} (mask : Array UInt8) {k j : Nat} (hj : j < 4)
    (hk : k * 4 + j < rgba.size) : (applyAlpha rgba mask).getD (k * 4 + j) 0 =
      if j = 3 then mask.getD (k * 4) 0 else rgba.getD (k * 4 + j) 0 := by
  have hmod : (k * 4 + j) % 4 = j := by omega
  rw [applyAlpha, Array.getD_eq_getD_getElem?, Array.getElem?_mapIdx,
    Array.getElem?_eq_getElem hk, Option.map_some, Option.getD_some, hmod]
  by_cases halpha : j = 3
  · rw [if_pos halpha, if_pos halpha, halpha, Nat.add_sub_cancel]
  · rw [if_neg halpha, if_neg halpha, Array.getD_eq_getD_getElem?, Array.getElem?_eq_getElem hk,
      Option.getD_some]

theorem size_applyAlpha (rgba mask : Array UInt8) : (applyAlpha rgba mask).size = rgba.size :=
  Array.size_mapIdx

theorem ofBuffer_applyAlpha {rgba mask : Array UInt8} {width height col row : Nat}
    (hrgba : rgba.size = width * height * 4) (hmask : mask.size = width * height * 4)
    (hcol : col < width) (hrow : row < height) :
    Rgba.ofBuffer (applyAlpha rgba mask) width col row =
      { Rgba.ofBuffer rgba width col row with
        alpha := (Rgba.ofBuffer mask width col row).red } := by
  have hplace := Grid.index_lt hcol hrow
  have hsize := size_applyAlpha rgba mask
  have hbyte : ∀ j < 4, (row * width + col) * 4 + j < rgba.size := by omega
  have hcolor : ∀ j < 3, (applyAlpha rgba mask).getD ((row * width + col) * 4 + j) 0 =
      rgba.getD ((row * width + col) * 4 + j) 0 := by
    intro j hj
    rw [getD_applyAlpha mask (by omega) (hbyte j (by omega)), if_neg (by omega)]
  have halpha := getD_applyAlpha mask (by decide) (hbyte 3 (by decide))
  have hred := hcolor 0 (by decide)
  rw [Nat.add_zero] at hred
  rw [if_pos rfl] at halpha
  unfold Rgba.ofBuffer
  dsimp only
  rw [hsize, if_pos (by omega), if_pos (by omega), if_pos (by omega), hred, hcolor 1 (by decide),
    hcolor 2 (by decide), halpha]

/-- The image is `plain`, with the alpha of the alpha image of `i` where there is one. -/
structure TakesAlpha (jpx : Option (JpxDecoder K)) (i : ImageXObject)
    (plain image : DecodedImage) : Prop where
  width_eq : image.width = plain.width
  height_eq : image.height = plain.height
  size : image.rgba.size = plain.rgba.size
  unmasked : i.smask = none → image = plain
  masked : ∀ m, i.smask = some m → ∃ mask, decodeSamples jpx m = .ok mask ∧
    m.width = plain.width ∧ m.height = plain.height ∧
    ∀ col < plain.width, ∀ row < plain.height, image.pixel col row =
      { plain.pixel col row with alpha := (mask.pixel col row).red }

theorem TakesAlpha.color_eq {i : ImageXObject} {plain image : DecodedImage}
    (h : i.TakesAlpha jpx plain image) {col row : Nat} (hcol : col < plain.width)
    (hrow : row < plain.height) : (image.pixel col row).color = (plain.pixel col row).color := by
  cases hm : i.smask with
  | none => rw [h.unmasked hm]
  | some m =>
    obtain ⟨mask, -, -, -, hpixel⟩ := h.masked m hm
    rw [hpixel col hcol row hrow]
    rfl

theorem takesAlpha_applyAlpha {i m : ImageXObject} {plain mask : DecodedImage}
    (hplain : decodeSamples jpx i = .ok plain) (hm : i.smask = some m)
    (hmask : decodeSamples jpx m = .ok mask) (hwidth : mask.width = plain.width)
    (hheight : mask.height = plain.height) :
    i.TakesAlpha jpx plain { plain with rgba := applyAlpha plain.rgba mask.rgba } := by
  obtain ⟨hplainwidth, hplainheight, hplainsize⟩ := decodeSamples_size hplain
  obtain ⟨hmaskwidth, hmaskheight, hmasksize⟩ := decodeSamples_size hmask
  rw [← hplainwidth, ← hplainheight] at hplainsize
  rw [← hmaskwidth, ← hmaskheight, hwidth, hheight] at hmasksize
  refine ⟨rfl, rfl, size_applyAlpha _ _, fun hnone => ?_, fun m' hm' => ?_⟩
  · rw [hm] at hnone
    cases hnone
  · obtain rfl := Option.some.inj (hm.symm.trans hm')
    refine ⟨mask, hmask, hmaskwidth.symm.trans hwidth, hmaskheight.symm.trans hheight, ?_⟩
    intro col hcol row hrow
    unfold DecodedImage.pixel
    rw [hwidth]
    exact ofBuffer_applyAlpha hplainsize hmasksize hcol hrow

theorem exists_plain {i : ImageXObject} {image : DecodedImage} (h : i.decode jpx = .ok image) :
    ∃ plain, decodeSamples jpx i = .ok plain ∧ i.TakesAlpha jpx plain image := by
  unfold decode at h
  split at h
  · cases h
  rename_i plain hplain
  refine ⟨plain, hplain, ?_⟩
  split at h
  · rename_i hnone
    obtain rfl := Except.ok.inj h
    refine ⟨rfl, rfl, rfl, fun _ => rfl, fun m hm => ?_⟩
    rw [hnone] at hm
    cases hm
  rename_i m hm
  split at h
  · cases h
  rename_i mask hmask
  split at h
  · cases h
  rename_i hsize
  simp only [not_or, not_not] at hsize
  obtain rfl := Except.ok.inj h
  exact takesAlpha_applyAlpha hplain hm hmask hsize.1 hsize.2

end Samples

/-- Each pixel has the colour of the samples stored for its place: of one byte for each component,
or of one bit. The bytes of gray and RGB samples are those of the pixel. -/
structure ShowsSamples (K : Type) [Scalar K] (i : ImageXObject) (image : DecodedImage) :
    Prop where
  complete : i.IsComplete
  bytes : i.bitsPerComponent = 8 → ∀ col < i.width, ∀ row < i.height,
    (i.sampleBytes col row).length = i.colorSpace.componentCount ∧
      (image.pixel col row).color =
        (i.colorSpace.toRgb ((i.sampleBytes col row).map (ofByte (K := K)))).toBytes
  gray : i.bitsPerComponent = 8 → i.colorSpace = .gray → ∀ col < i.width, ∀ row < i.height,
    ∃ b, i.sampleBytes col row = [b] ∧ (image.pixel col row).color = [b, b, b]
  rgb : i.bitsPerComponent = 8 → i.colorSpace = .rgb → ∀ col < i.width, ∀ row < i.height,
    (image.pixel col row).color = i.sampleBytes col row
  bits : i.bitsPerComponent = 1 → ∀ col < i.width, ∀ row < i.height, ∃ on,
    (i.rowBits row)[col]? = some on ∧
      (image.pixel col row).color = List.replicate 3 (if on then 255 else 0)

section Exact
variable [ExactField K] {jpx : Option (JpxDecoder K)}

theorem toBytes_gray (b : UInt8) :
    (ColorSpace.gray.toRgb [ofByte (K := K) b]).toBytes = [b, b, b] := by
  simp [ColorSpace.toRgb, ColorSpace.grayToRgb, ColorSpace.channel, Rgb.toBytes]

theorem toBytes_rgb (r g b : UInt8) :
    (ColorSpace.rgb.toRgb ([r, g, b].map (ofByte (K := K)))).toBytes = [r, g, b] := by
  simp [ColorSpace.toRgb, ColorSpace.rgbToRgb, ColorSpace.channel, Rgb.toBytes]

theorem color_bytePixel (space : ColorSpace) (samples : List UInt8) :
    (Rgba.ofBytes (bytePixel K space samples)).color =
      (space.toRgb (samples.map (ofByte (K := K)))).toBytes := rfl

theorem showsSamples_of_color {i : ImageXObject} {image : DecodedImage} (hcomplete : i.IsComplete)
    (hcolor : ∀ col < i.width, ∀ row < i.height,
      (image.pixel col row).color = (Rgba.ofBytes (i.pixelBytes K col row)).color) :
    i.ShowsSamples K image := by
  have hbytes : i.bitsPerComponent = 8 → ∀ col < i.width, ∀ row < i.height,
      (i.sampleBytes col row).length = i.colorSpace.componentCount ∧
        (image.pixel col row).color =
          (i.colorSpace.toRgb ((i.sampleBytes col row).map (ofByte (K := K)))).toBytes := by
    intro h8 col hcol row hrow
    obtain ⟨hpixel, hlength⟩ := pixelBytes_of_bytes (K := K) hcomplete h8 hcol hrow
    rw [hcolor col hcol row hrow, hpixel]
    exact ⟨hlength, color_bytePixel _ _⟩
  refine ⟨hcomplete, hbytes, ?_, ?_, ?_⟩
  · intro h8 hgray col hcol row hrow
    obtain ⟨hlength, hpixel⟩ := hbytes h8 col hcol row hrow
    rw [hgray] at hlength hpixel
    obtain ⟨b, hb⟩ := List.length_eq_one_iff.1 hlength
    rw [hb, List.map_singleton, toBytes_gray] at hpixel
    exact ⟨b, hb, hpixel⟩
  · intro h8 hrgb col hcol row hrow
    obtain ⟨hlength, hpixel⟩ := hbytes h8 col hcol row hrow
    rw [hrgb] at hlength hpixel
    obtain ⟨r, g, b, hsamples⟩ := List.length_eq_three.1 hlength
    rw [hpixel, hsamples, toBytes_rgb]
  · intro h1 col hcol row hrow
    obtain ⟨on, hon, hpixel⟩ := pixelBytes_of_bits (K := K) hcomplete h1 hcol hrow
    refine ⟨on, hon, ?_⟩
    rw [hcolor col hcol row hrow, hpixel]
    rfl

/-- What is decoded has the declared size and all its pixels. Without a filter they show the
samples of their places, and other data with the same samples is decoded to the same image. The
alpha of a pixel is the red of the alpha image at the same place, which leaves the colour as it is,
and without an alpha image there are no transparent pixels unless a decoder makes them. -/
theorem decode_pixels {i : ImageXObject} {image : DecodedImage} (h : i.decode jpx = .ok image) :
    (image.width = i.width ∧ image.height = i.height ∧
      image.rgba.size = 4 * i.width * i.height) ∧
    (i.filter = .none → i.ShowsSamples K image ∧
      (∀ data, i.StoresSame data → (i.withData data).decode jpx = .ok image) ∧
      (i.smask = none → ∀ col < i.width, ∀ row < i.height, (image.pixel col row).alpha = 255)) ∧
    ∀ m, i.smask = some m → ∃ plain mask,
      i.withoutAlpha.decode jpx = .ok plain ∧ m.withoutAlpha.decode jpx = .ok mask ∧
      m.width = i.width ∧ m.height = i.height ∧
      ∀ col < i.width, ∀ row < i.height, image.pixel col row =
        { plain.pixel col row with alpha := (mask.pixel col row).red } := by
  obtain ⟨plain, hplain, halpha⟩ := exists_plain h
  obtain ⟨hwidth, hheight, hsize⟩ := decodeSamples_size hplain
  refine ⟨⟨halpha.width_eq.trans hwidth, halpha.height_eq.trans hheight, ?_⟩, fun hfilter => ?_,
    fun m hm => ?_⟩
  · rw [halpha.size, hsize, Nat.mul_comm, Nat.mul_assoc]
  · have hraw := hplain
    rw [decodeSamples_of_none hfilter] at hraw
    obtain ⟨hcomplete, rfl⟩ := decodeRaw_eq_ok_iff.1 hraw
    obtain ⟨-, hread⟩ := Rgba.buffer_tabulate i.width i.height (length_pixelBytes (K := K) i)
    refine ⟨showsSamples_of_color hcomplete fun col hcol row hrow => ?_, fun data hdata => ?_,
      fun hnone col hcol row hrow => ?_⟩
    · rw [halpha.color_eq hcol hrow]
      exact congrArg Rgba.color (hread col hcol row hrow)
    · have hsame : decodeSamples jpx (i.withData data) = decodeSamples jpx i :=
        decodeSamples_withData hfilter hcomplete hdata
      rw [← h]
      unfold decode
      rw [hsame]
      rfl
    · rw [halpha.unmasked hnone]
      exact (congrArg Rgba.alpha (hread col hcol row hrow)).trans (alpha_pixelBytes i col row)
  · obtain ⟨mask, hmask, hmwidth, hmheight, hpixel⟩ := halpha.masked m hm
    rw [hwidth] at hmwidth hpixel
    rw [hheight] at hmheight hpixel
    exact ⟨plain, mask, (decode_withoutAlpha i).trans hplain,
      (decode_withoutAlpha m).trans hmask, hmwidth, hmheight, hpixel⟩

/-- Two RGB pixels and a byte that is not read, under an alpha image of one byte whose padding is
not read. -/
theorem decode_pixels_padded :
    let m : ImageXObject := .mk 2 1 1 .gray .none #[0xBF] none
    let i : ImageXObject := .mk 2 1 8 .rgb .none #[1, 2, 3, 4, 5, 6, 99] (some m)
    let image : DecodedImage := ⟨2, 1, #[1, 2, 3, 255, 4, 5, 6, 0]⟩
    i.decode (K := ℚ) none = .ok image ∧ i.ShowsSamples ℚ image ∧
      (i.withData #[1, 2, 3, 4, 5, 6]).decode (K := ℚ) none = .ok image ∧
      ∀ m', i.smask = some m' → ∃ plain mask,
        i.withoutAlpha.decode (K := ℚ) none = .ok plain ∧
        m'.withoutAlpha.decode (K := ℚ) none = .ok mask ∧ m'.width = 2 ∧ m'.height = 1 ∧
        ∀ col < 2, ∀ row < 1, image.pixel col row =
          { plain.pixel col row with alpha := (mask.pixel col row).red } := by
  intro m i image
  have hdecode : i.decode (K := ℚ) none = .ok image := by decide +kernel
  obtain ⟨-, hplain, hmasked⟩ := decode_pixels hdecode
  obtain ⟨hshows, hunread, -⟩ := hplain rfl
  exact ⟨hdecode, hshows, hunread _ ⟨by decide, by decide, by decide⟩, hmasked⟩

end Exact
end ImageXObject
end ContentStream
