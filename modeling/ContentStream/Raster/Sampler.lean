import ContentStream.Element
import ContentStream.Raster.Clip

set_option autoImplicit false

namespace ContentStream
variable {K : Type} [Scalar K]

structure Ink (K : Type) where
  rgb : Rgb K
  alpha : K

inductive Area (K : Type)
  | path (subpaths : List (Subpath K)) (rule : FillRule)
  | quads (quads : List (List (Point K)))

structure Stroke (K : Type) where
  subpaths : List (Subpath K)
  half : K
  cap : LineCap

/-- What an element paints: an area, a stroke over it, or both. -/
structure Sampler (K : Type) where
  area : Option (Area K × Ink K)
  stroke : Option (Stroke K × Ink K)

def Area.contains (a : Area K) (p : Point K) : Bool :=
  match a with
  | path subpaths rule => fillContains subpaths rule p
  | quads qs => qs.any fun q => quadContains q p

def Stroke.contains (s : Stroke K) (p : Point K) : Bool :=
  strokeContains s.subpaths s.half s.cap p

namespace GraphicsState

def fillInk (s : GraphicsState K) : Ink K := ⟨s.fillColor.toRgb, s.fillAlpha⟩

def strokeInk (s : GraphicsState K) : Ink K := ⟨s.strokeColor.toRgb, s.strokeAlpha⟩

def textInk? (s : GraphicsState K) : Option (Ink K) :=
  if s.text.fills then some s.fillInk
  else if s.text.strokesOnly then some s.strokeInk
  else none

end GraphicsState

namespace Sampler

def ofPath? (e : PathElement K) : Option (Sampler K) :=
  if e.paint.fills || e.paint.strokes then
    let subpaths := flatten e.segments e.state.ctm
    some {
      area :=
        if e.paint.fills then
          some (.path subpaths (e.fillRule.getD .nonZero), e.state.fillInk)
        else none
      stroke :=
        if e.paint.strokes then
          some (⟨subpaths, e.state.halfLineWidth, e.state.lineCap⟩, e.state.strokeInk)
        else none }
  else none

def ofText? (e : TextElement K) : Option (Sampler K) :=
  e.state.textInk?.map fun ink => ⟨some (.quads (e.runs.map TextRun.outline), ink), none⟩

def ofElement? : Element K → Option (Sampler K)
  | .path e => ofPath? e
  | .text e => ofText? e
  | _ => none

def blend (top bottom : Ink K) : Rgb K × K :=
  let sa := Scalar.clampUnit top.alpha
  let fa := Scalar.clampUnit bottom.alpha
  let alpha := sa + fa * (1 - sa)
  if alpha ≤ 0 then (Rgb.black, 0)
  else
    let mix := fun s f : K => (s * sa + f * fa * (1 - sa)) / alpha
    (⟨mix top.rgb.r bottom.rgb.r, mix top.rgb.g bottom.rgb.g, mix top.rgb.b bottom.rgb.b⟩, alpha)

def sample? (s : Sampler K) (p : Point K) : Option (Rgb K × K) :=
  let fill := s.area.bind fun (area, ink) => if area.contains p then some ink else none
  let stroke := s.stroke.bind fun (line, ink) => if line.contains p then some ink else none
  match fill, stroke with
  | none, none => none
  | some f, none => some (f.rgb, Scalar.clampUnit f.alpha)
  | none, some t => some (t.rgb, Scalar.clampUnit t.alpha)
  | some f, some t => some (blend t f)

/-- The pixel of a masked element under a mask value of `m`, the clip included, and a constant
mask. -/
def maskedPixel (s : Sampler K) (m constant : K) (p : Point K) : List UInt8 :=
  match s.sample? p with
  | some (rgb, alpha) =>
    if 0 < m then rgb.toBytes ++ [Scalar.toByte (alpha * m * constant)]
    else Rgba.transparent.toBytes
  | none => Rgba.transparent.toBytes

end Sampler

/-- The pixels of an element on the grid of the soft mask in its state. There are none without a
usable mask, or where the element paints nothing. -/
def Element.rasterizeMasked? (e : Element K) : Option (RasterImage K) :=
  e.state.softMask.bind fun mask =>
    if mask.isConsistent then
      (Sampler.ofElement? e).map fun sampler =>
        let constant := Scalar.clampUnit e.state.softMaskAlpha
        let pixelAt := fun col row =>
          let p := mask.pixelCenter col row
          let m := Scalar.ofByte (mask.get col row) * e.state.clipCoverage p
          sampler.maskedPixel m constant p
        let painted : GraphicsState K :=
          { e.state.clearSoftMask with ctm := mask.matrix, fillAlpha := 1, strokeAlpha := 1 }
        { pixels := ((Grid.tabulate mask.width mask.height pixelAt).flatten).toArray
          width := mask.width
          height := mask.height
          colorSpace := .rgb
          state := painted.clearFillPattern }
    else none

end ContentStream
