import ContentStream.Interpreter
import ContentStream.Raster.Shading

set_option autoImplicit false

namespace ContentStream.Interpreter
variable {K : Type} [Scalar K]

def addSegment (x : Segment K) (s : Interpreter K) : Interpreter K :=
  { s with path := s.path.push x }

/-- The pixels of a path that the shading pattern in its state fills, unless there is no such
pattern or no room for pixels. -/
def rasterizePattern? (options : Options K) (segments : List (Segment K)) (rule : FillRule)
    (state : GraphicsState K) (s : Interpreter K) : Option (RasterImage K) :=
  match state.fillPattern.bind s.resources.pattern? with
  | some (.shading matrix shading) =>
    let region := (pathBounds segments state.ctm).intersect state.clipBBox
    (shading.rasterize? (matrix.compose s.baseCtm) region
      (some (flatten segments state.ctm, rule)) options.shadingBudget state).map fun r =>
        { r with state := r.state.clearFillPattern }
  | _ => none

/-- Draws some segments. A fill with a shading pattern becomes pixels, and a stroke over such a
fill a path of its own. -/
def drawPath (options : Options K) (segments : List (Segment K)) (paint : Paint)
    (rule : FillRule) (s : Interpreter K) : Interpreter K :=
  let state := s.state
  let pattern :=
    if paint.fills && state.fillsWithPattern then
      s.rasterizePattern? options segments rule state
    else none
  match pattern with
  | some raster =>
    let s := s.emit (.raster raster)
    if paint = .fillStroke then
      s.emit (.path ⟨segments, .stroke, none, state.clearFillPattern⟩)
    else s
  | none =>
    s.emit (.path ⟨segments, paint, if paint.fills then some rule else none, state⟩)

def paintPath (options : Options K) (paint : Paint) (rule : FillRule) (close : Bool)
    (s : Interpreter K) : Interpreter K :=
  if s.path.isEmpty then s
  else
    let segments := s.path.toList ++ if close then [.close] else []
    { s with path := #[] }.drawPath options segments paint rule

/-- The state after clipping with some segments. A path without finite bounds has no effect. -/
def clipState (options : Options K) (segments : List (Segment K)) (rule : FillRule)
    (g : GraphicsState K) : GraphicsState K :=
  let bounds := pathBounds segments g.ctm
  if !bounds.isFinite || decide (bounds.x1 < bounds.x0) || decide (bounds.y1 < bounds.y0) then g
  else
    let bbox := g.clipBBox.intersect bounds
    let mask :=
      if 0 < options.clipBudget then
        Mask.ofClip? segments g.ctm rule bbox g.clipMask options.clipBudget
      else g.clipMask
    { g with clipMask := mask, clipBBox := bbox }

def clipPath (options : Options K) (rule : FillRule) (s : Interpreter K) : Interpreter K :=
  if s.path.isEmpty then s
  else { s with path := #[] }.modifyState (clipState options s.path.toList rule)

def paintShading (options : Options K) (name : String) (s : Interpreter K) : Interpreter K :=
  match s.resources.shading? name with
  | none => s
  | some shading =>
    let state := s.state
    let region := match shading.bbox with
      | some bbox => state.clipBBox.intersect (state.ctm.applyRect bbox)
      | none => state.clipBBox
    match shading.rasterize? state.ctm region none options.shadingBudget state with
    | some raster => s.emit (.raster raster)
    | none => s

end ContentStream.Interpreter
