import ContentStream.Path
import ContentStream.State

set_option autoImplicit false

namespace ContentStream

structure PathElement (K : Type) where
  segments : List (Segment K)
  paint : Paint
  /-- Absent where nothing is filled. -/
  fillRule : Option FillRule
  state : GraphicsState K
  deriving DecidableEq

structure TextRun (K : Type) where
  text : String
  bytes : List UInt8
  start : Point K
  finish : Point K
  fontName : String
  baseFont : String
  fontSize : K
  /-- The size after the text matrix and the transform of the page. -/
  effectiveFontSize : K
  charSpacing : K
  wordSpacing : K
  horizontalScaling : K
  rise : K
  /-- The corners from descent to ascent over the whole advance: lower left, lower right, upper
  right, upper left. -/
  outline : List (Point K)
  deriving DecidableEq

structure TextElement (K : Type) where
  runs : List (TextRun K)
  state : GraphicsState K
  deriving DecidableEq

structure ImageElement (K : Type) where
  name : String
  state : GraphicsState K
  deriving DecidableEq

/-- Pixels with straight alpha, four bytes each, the top row first. The transform of the state
maps the unit square onto the image. -/
structure RasterImage (K : Type) where
  pixels : Array UInt8
  width : Nat
  height : Nat
  colorSpace : ColorSpace
  state : GraphicsState K
  deriving DecidableEq

inductive Element (K : Type)
  | path (e : PathElement K)
  | text (e : TextElement K)
  | image (e : ImageElement K)
  | raster (e : RasterImage K)
  deriving DecidableEq

structure Rgba where
  red : UInt8
  green : UInt8
  blue : UInt8
  alpha : UInt8
  deriving DecidableEq

namespace Rgba

def transparent : Rgba := ⟨0, 0, 0, 0⟩

def toBytes (p : Rgba) : List UInt8 := [p.red, p.green, p.blue, p.alpha]

def ofBuffer (bytes : Array UInt8) (width col row : Nat) : Rgba :=
  let i := (row * width + col) * 4
  if i + 4 ≤ bytes.size then
    ⟨bytes.getD i 0, bytes.getD (i + 1) 0, bytes.getD (i + 2) 0, bytes.getD (i + 3) 0⟩
  else transparent

end Rgba

def RasterImage.pixel {K : Type} (r : RasterImage K) (col row : Nat) : Rgba :=
  .ofBuffer r.pixels r.width col row

def Element.state {K : Type} : Element K → GraphicsState K
  | path e => e.state
  | text e => e.state
  | image e => e.state
  | raster e => e.state

end ContentStream
