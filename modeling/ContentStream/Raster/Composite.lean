import ContentStream.Options
import ContentStream.Raster.Sampler

set_option autoImplicit false

/-!
# Compositing mask groups

The elements of a soft mask group, from back to front, become a grid of alpha bytes. A group that
is nothing but one fill of its whole bounding box is the same everywhere and needs no grid.
-/
namespace ContentStream
variable {K : Type} [Scalar K]

inductive MaskValue (K : Type)
  | constant (alpha : K)
  | grid (mask : Mask K)

def bboxTolerance : K := 1e-6

def constantValue? (kind : MaskKind) (bbox : Rect K) : List (Element K) → Option K
  | [.path ⟨[.rect x y w h], .fill, _, state⟩] =>
    if state.ctm.isIdentity && !state.fillsWithPattern &&
        (Rect.normalize ⟨x, y, x + w, y + h⟩).approxEq bbox bboxTolerance then
      let alpha := Scalar.clampUnit state.fillAlpha
      match kind with
      | .alpha => some alpha
      | .luminosity => some (Scalar.clampUnit (state.fillColor.luminance * alpha))
    else none
  | _ => none

inductive Layer (K : Type)
  | vector (sampler : Sampler K)
  /-- Pixels over the unit square, to which `inverse` maps the space of the group. -/
  | pixels (image : DecodedImage) (inverse : Transform K) (alpha : K)

namespace Layer

def sample? (l : Layer K) (p : Point K) : Option (Rgb K × K) :=
  match l with
  | vector sampler => sampler.sample? p
  | pixels image inverse alpha =>
    (Grid.cell? image.width image.height (inverse.apply p)).map fun (col, row) =>
      let px := image.pixel col row
      (⟨Scalar.ofByte px.red, Scalar.ofByte px.green, Scalar.ofByte px.blue⟩,
        Scalar.ofByte px.alpha * alpha)

def ofImage (image : DecodedImage) (placement : Transform K) (alpha : K) :
    Except (Fault K) (Layer K) :=
  if image.width = 0 ∨ image.height = 0 then .error (.undecodable .emptyGroupImage)
  else
    match placement.inverse? with
    | none => .error (.unsupportedMask .singularPlacement)
    | some inverse => .ok (pixels image inverse (Scalar.clampUnit alpha))

def usesPattern (e : PathElement K) : Bool :=
  e.paint.fills && e.state.fillsWithPattern || e.paint.strokes && e.state.strokePattern.isSome

/-- The layer of an element, or none where it paints nothing. Images are looked up by name. -/
def ofElement? (resources : Resources K) (options : Options K) :
    Element K → Except (Fault K) (Option (Layer K))
  | .path e =>
    if usesPattern e then .error (.unsupportedMask .patternPaint)
    else .ok ((Sampler.ofElement? (.path e)).map vector)
  | .text e => .ok ((Sampler.ofElement? (.text e)).map vector)
  | .image e =>
    match resources.xObject? e.name with
    | some (.image i) =>
      match i.decode options.jpx with
      | .error fault => .error fault
      | .ok image => (ofImage image e.state.ctm e.state.fillAlpha).map some
    | _ => .error (.missingKey e.name)
  | .raster e =>
    let expected := e.width * e.height * 4
    if e.pixels.size ≠ expected then .error (.dimensionMismatch expected e.pixels.size)
    else (ofImage ⟨e.width, e.height, e.pixels⟩ e.state.ctm e.state.fillAlpha).map some

def ofElements (resources : Resources K) (options : Options K) :
    List (Element K) → Except (Fault K) (List (Layer K × GraphicsState K))
  | [] => .ok []
  | e :: es =>
    match ofElement? resources options e with
    | .error fault => .error fault
    | .ok layer =>
      match ofElements resources options es with
      | .error fault => .error fault
      | .ok layers =>
        match layer with
        | none => .ok layers
        | some l => .ok ((l, e.state) :: layers)

end Layer

structure Accumulated (K : Type) where
  color : Rgb K
  coverage : K

namespace Accumulated

/-- Lays a straight colour of coverage `a` over what has been accumulated, or in its place where
the group knocks out. -/
def add (knockout : Bool) (acc : Accumulated K) (rgb : Rgb K) (a : K) : Accumulated K :=
  if a ≤ 0 then acc
  else if knockout then ⟨rgb.map (· * a), a⟩
  else
    let keep := 1 - a
    { color := ⟨rgb.r * a + acc.color.r * keep, rgb.g * a + acc.color.g * keep,
        rgb.b * a + acc.color.b * keep⟩
      coverage := a + acc.coverage * keep }

def addLayer (knockout : Bool) (p : Point K) (acc : Accumulated K)
    (layer : Layer K × GraphicsState K) : Accumulated K :=
  match layer.1.sample? p with
  | none => acc
  | some (rgb, a) => acc.add knockout rgb (a * layer.2.clipCoverage p)

def toAlpha (kind : MaskKind) (acc : Accumulated K) : UInt8 :=
  match kind with
  | .alpha => Scalar.toByte acc.coverage
  | .luminosity =>
    if 0 < acc.coverage then
      Scalar.toByte ((acc.color.map (· / acc.coverage)).luminance * acc.coverage)
    else 0

end Accumulated

namespace SoftMaskGroup

/-- The colour behind the group. Only the luminance of a group that is not isolated has one. -/
def backdropColor? (g : SoftMaskGroup K) : Except (Fault K) (Option (Rgb K)) :=
  match g.kind, g.isolated, g.backdrop with
  | .luminosity, false, some components =>
    let byCount := match ColorSpace.ofComponentCount? components.length with
      | some space => .ok (some (space.toRgb components))
      | none => .error (.unsupportedMask (.backdropComponents components.length))
    match g.colorSpace with
    | some space =>
      if space.componentCount = components.length then .ok (some (space.toRgb components))
      else byCount
    | none => byCount
  | _, _, _ => .ok none

def background (backdrop : Option (Rgb K)) : Accumulated K :=
  match backdrop with
  | some rgb => ⟨rgb, 1⟩
  | none => ⟨Rgb.black, 0⟩

def alphaBytes (g : SoftMaskGroup K) (bbox : Rect K) (width height : Nat)
    (start : Accumulated K) (layers : List (Layer K × GraphicsState K)) : Array UInt8 :=
  (Grid.tabulate width height fun col row =>
    let p := bbox.placement.apply (Grid.center width height col row)
    (layers.foldl (Accumulated.addLayer g.knockout p) start).toAlpha g.kind).toArray

/-- The grid of the elements of a group over its bounding box, with its width and height. -/
def composite (g : SoftMaskGroup K) (bbox : Rect K) (elements : List (Element K))
    (options : Options K) : Except (Fault K) (Nat × Nat × Array UInt8) :=
  match Grid.size? (bbox.x1 - bbox.x0) (bbox.y1 - bbox.y0) options.softMaskBudget with
  | none => .error (.unsupportedMask (.unrasterizable bbox))
  | some (width, height) =>
    match Layer.ofElements g.resources options elements with
    | .error fault => .error fault
    | .ok layers =>
      match g.backdropColor? with
      | .error fault => .error fault
      | .ok backdrop =>
        .ok (width, height, g.alphaBytes bbox width height (background backdrop) layers)

def valueOf (g : SoftMaskGroup K) (ctm : Transform K) (options : Options K)
    (elements : List (Element K)) : Except (Fault K) (MaskValue K) :=
  let bbox := g.bbox.normalize
  match constantValue? g.kind bbox elements with
  | some alpha => .ok (.constant alpha)
  | none =>
    match g.composite bbox elements options with
    | .error fault => .error fault
    | .ok (width, height, alpha) =>
      .ok (.grid {
        kind := g.kind
        width
        height
        alpha
        bbox
        matrix := (bbox.placement.compose g.matrix).compose ctm })

end SoftMaskGroup
end ContentStream
