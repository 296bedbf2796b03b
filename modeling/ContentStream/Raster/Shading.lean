import ContentStream.Element
import ContentStream.Raster.Clip
import ContentStream.Resources

set_option autoImplicit false

namespace ContentStream
variable {K : Type} [Scalar K]

namespace ShadingKind

def usable (r0 dr : K) (extend : Bool × Bool) (s : K) : Bool :=
  decide (0 ≤ r0 + s * dr) && (decide (0 ≤ s) || extend.1) && (decide (s ≤ 1) || extend.2)

/-- The largest usable parameter whose circle goes through `q`. Centre and radius are linear in
the parameter, so it solves a quadratic equation. -/
def radialParameter? (c0 : Point K) (r0 : K) (c1 : Point K) (r1 : K) (extend : Bool × Bool)
    (q : Point K) : Option K :=
  let dcx := c1.x - c0.x
  let dcy := c1.y - c0.y
  let dr := r1 - r0
  let px := q.x - c0.x
  let py := q.y - c0.y
  let a := dcx * dcx + dcy * dcy - dr * dr
  let b := px * dcx + py * dcy + r0 * dr
  let c := px * px + py * py - r0 * r0
  if Scalar.abs a ≤ Scalar.unitSpacing then
    if Scalar.abs b ≤ Scalar.unitSpacing then none
    else
      let s := c / (((2 : Nat) : K) * b)
      if usable r0 dr extend s then some s else none
  else
    let disc := b * b - a * c
    if disc < 0 then none
    else
      let root := Scalar.sqrt disc
      let s1 := (b + root) / a
      let s2 := (b - root) / a
      let (hi, lo) := if s2 ≤ s1 then (s1, s2) else (s2, s1)
      if usable r0 dr extend hi then some hi
      else if usable r0 dr extend lo then some lo
      else none

/-- The parameter of a point, beyond an end if it lies there. -/
def rawParameter? (extend : Bool × Bool) (q : Point K) : ShadingKind K → Option K
  | axial x0 y0 x1 y1 =>
    let dx := x1 - x0
    let dy := y1 - y0
    let denominator := dx * dx + dy * dy
    if denominator ≤ Scalar.unitSpacing then none
    else some (((q.x - x0) * dx + (q.y - y0) * dy) / denominator)
  | radial x0 y0 r0 x1 y1 r1 => radialParameter? ⟨x0, y0⟩ r0 ⟨x1, y1⟩ r1 extend q

def parameter? (kind : ShadingKind K) (extend : Bool × Bool) (q : Point K) : Option K :=
  (kind.rawParameter? extend q).bind fun s =>
    if s < 0 then if extend.1 then some 0 else none
    else if 1 < s then if extend.2 then some 1 else none
    else some s

end ShadingKind

namespace Shading

def colorAt (d : Shading K) (s : K) : Rgb K :=
  let components := d.function.eval (d.domain.1 + s * (d.domain.2 - d.domain.1))
  if d.colorSpace.isPattern then Rgb.black else d.colorSpace.toRgb components

def pixel (d : Shading K) (toShading : Transform K) (coverage : K) (p : Point K) : List UInt8 :=
  let s := if 0 < coverage then d.kind.parameter? d.extend (toShading.apply p) else none
  match s with
  | some s => (d.colorAt s).toBytes ++ [Scalar.toByte coverage]
  | none => Rgba.transparent.toBytes

/-- The shading over a region of the page, inside `path` where that is given. There is none where
the region has no room for pixels or the space of the shading is degenerate. -/
def rasterize? (d : Shading K) (toPage : Transform K) (region : Rect K)
    (path : Option (List (Subpath K) × FillRule)) (budget : Nat) (state : GraphicsState K) :
    Option (RasterImage K) :=
  if region.isDrawable then
    match Grid.size? (region.x1 - region.x0) (region.y1 - region.y0) budget, toPage.inverse? with
    | some (width, height), some toShading =>
      let placement := region.placement
      let pixelAt := fun col row =>
        let p := placement.apply (Grid.center width height col row)
        let inside := match path with
          | none => true
          | some (subpaths, rule) => fillContains subpaths rule p
        d.pixel toShading (if inside then state.clipCoverage p else 0) p
      some {
        pixels := ((Grid.tabulate width height pixelAt).flatten).toArray
        width
        height
        colorSpace := .rgb
        state := { state with ctm := placement } }
    | _, _ => none
  else none

end Shading
end ContentStream
