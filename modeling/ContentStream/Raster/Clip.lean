import ContentStream.Path.Coverage

set_option autoImplicit false

namespace ContentStream
variable {K : Type} [Scalar K]

namespace Mask

/-- A grid over `bbox` that is opaque at the pixels whose centre `inside` accepts. There, it takes
the alpha of `previous`, if there is one. -/
def ofRegion (width height : Nat) (bbox : Rect K) (inside : Point K → Bool)
    (previous : Option (Mask K)) : Mask K :=
  let value := fun col row =>
    let p := bbox.placement.apply (Grid.center width height col row)
    if inside p then
      match previous with
      | none => 255
      | some m => m.sample p
    else 0
  { kind := .alpha, width, height, alpha := (Grid.tabulate width height value).toArray, bbox,
    matrix := bbox.placement }

def ofClip? (segments : List (Segment K)) (m : Transform K) (rule : FillRule) (bbox : Rect K)
    (previous : Option (Mask K)) (budget : Nat) : Option (Mask K) :=
  if bbox.isDrawable then
    let subpaths := flatten segments m
    (Grid.size? (bbox.x1 - bbox.x0) (bbox.y1 - bbox.y0) budget).map fun (width, height) =>
      ofRegion width height bbox (fillContains subpaths rule) previous
  else none

end Mask

/-- Whether a point lies in the bounds of the clip. Points that do not compare lie in them. -/
def Rect.admits (r : Rect K) (p : Point K) : Bool :=
  !(decide (p.x < r.x0) || decide (r.x1 < p.x) || decide (p.y < r.y0) || decide (r.y1 < p.y))

def GraphicsState.clipCoverage (s : GraphicsState K) (p : Point K) : K :=
  if s.clipBBox.admits p then
    match s.clipMask with
    | none => 1
    | some m => Scalar.ofByte (m.sample p)
  else 0

end ContentStream
