import ContentStream.Raster.Composite
import ContentStream.Raster.Shading

set_option autoImplicit false

/-!
# Computations that abort

Pixels are not always come by. A number may have to be clamped between bounds that are out of order
or do not compare, and a buffer may be larger than any address space. Neither is a fault that a run
could absorb: the program ends there. Everything else is as if there were no such case.
-/
namespace ContentStream
variable {K : Type} [Scalar K]

def Scalar.clampAborts (lo hi : K) : Bool := !decide (lo ≤ hi)

def exceedsMemory (bytes : Nat) : Bool := decide (Nat.pow 2 63 ≤ bytes)

def exceedsWord (n : Nat) : Bool := decide (Nat.pow 2 64 ≤ n)

/-- Whether the search for an item that `holds` meets one that aborts before. -/
def searchAborts {α : Type} (aborts holds : α → Bool) : List α → Bool
  | [] => false
  | x :: xs => aborts x || !holds x && searchAborts aborts holds xs

/-- The point next to `p` on a line with round ends is found by clamping to its length. -/
def roundLineAborts (a b : Point K) : Bool :=
  let len := Scalar.hypot (b.x - a.x) (b.y - a.y)
  !decide (len ≤ Scalar.unitSpacing) && Scalar.clampAborts 0 len

def Subpath.roundStrokeAborts (s : Subpath K) (half : K) (p : Point K) : Bool :=
  match s.points with
  | [a] => roundLineAborts a a
  | _ =>
    searchAborts (fun edge => roundLineAborts edge.1 edge.2)
      (fun edge => lineCovers edge.1 edge.2 half .round p) (s.edges s.closed)

def Stroke.aborts (s : Stroke K) (p : Point K) : Bool :=
  s.cap == .round &&
    searchAborts (fun sub => sub.roundStrokeAborts s.half p)
      (fun sub => sub.strokeCovers s.half .round p) s.subpaths

def Sampler.aborts (s : Sampler K) (p : Point K) : Bool :=
  s.stroke.any fun (line, _) => line.aborts p

def Element.maskingAborts (e : Element K) : Bool :=
  e.state.softMask.any fun mask =>
    mask.isConsistent && (Sampler.ofElement? e).any fun sampler =>
      (Grid.tabulate mask.width mask.height mask.pixelCenter).any sampler.aborts

def Mask.clipAborts (bbox : Rect K) (budget : Nat) : Bool :=
  bbox.isDrawable &&
    (Grid.size? (bbox.x1 - bbox.x0) (bbox.y1 - bbox.y0) budget).any fun (width, height) =>
      exceedsMemory (width * height)

/-- The initial components are stored in eight bytes each. -/
def ColorSpace.initialAborts : ColorSpace → Bool
  | icc 4 => false
  | iccVia _ s => s.initialAborts
  | s => exceedsMemory (8 * s.componentCount)

namespace ColorFunction

def restrictAborts (d0 d1 : K) : Bool :=
  Scalar.clampAborts (Scalar.min d0 d1) (Scalar.max d0 d1)

mutual

def aborts : ColorFunction K → K → Bool
  | exponential d0 d1 .., _ => restrictAborts d0 d1
  | stitching d0 d1 functions bounds encode, t =>
    let u := restrict d0 d1 t
    let k := part bounds functions.length u
    restrictAborts d0 d1 || abortsAt functions k (encodePart d0 d1 bounds encode k u)
  | sampled d0 d1 _, _ => restrictAborts d0 d1
  termination_by structural f => f

def abortsAt : List (ColorFunction K) → Nat → K → Bool
  | [], _, _ => false
  | f :: _, 0, t => f.aborts t
  | _ :: fs, k + 1, t => abortsAt fs k t
  termination_by structural fs => fs

end

end ColorFunction

namespace Shading

def colorAborts (d : Shading K) (s : K) : Bool :=
  d.function.aborts (d.domain.1 + s * (d.domain.2 - d.domain.1))

def rasterizeAborts (d : Shading K) (toPage : Transform K) (region : Rect K)
    (path : Option (List (Subpath K) × FillRule)) (budget : Nat) (state : GraphicsState K) :
    Bool :=
  region.isDrawable &&
    match Grid.size? (region.x1 - region.x0) (region.y1 - region.y0) budget, toPage.inverse? with
    | some (width, height), some toShading =>
      let pixelAborts := fun p =>
        (d.kind.parameter? d.extend (toShading.apply p)).any d.colorAborts &&
          path.all (fun (subpaths, rule) => fillContains subpaths rule p) &&
          decide (0 < state.clipCoverage p)
      exceedsMemory (width * height * 4) ||
        (Grid.tabulate width height fun col row =>
          region.placement.apply (Grid.center width height col row)).any pixelAborts
    | _, _ => false

end Shading

namespace ImageXObject

/-- The pixels get their buffer before the number of samples is looked at. A size beyond a word
aborts as well, as it does where arithmetic is checked for overflow. -/
def rawAborts (i : ImageXObject) : Bool :=
  let n := i.colorSpace.componentCount
  i.width != 0 && i.height != 0 && n != 0 &&
    (exceedsMemory (i.width * i.height * 4) ||
      i.bitsPerComponent == 8 && exceedsWord (i.width * i.height * n))

def samplesAbort (jpx : Option (JpxDecoder K)) (i : ImageXObject) : Bool :=
  match i.filter with
  | .none => i.rawAborts
  | .jpx =>
    jpx.any (fun decode => (decode i.data.toList).isOk) && exceedsWord (i.width * i.height * 4)
  | .other _ => false

def decodeAborts (jpx : Option (JpxDecoder K)) (i : ImageXObject) : Bool :=
  i.samplesAbort jpx ||
    (decodeSamples jpx i).isOk && i.smask.any fun mask => mask.samplesAbort jpx

end ImageXObject

namespace Layer

def aborts (l : Layer K) (p : Point K) : Bool :=
  match l with
  | vector sampler => sampler.aborts p
  | pixels .. => false

def elementAborts (resources : Resources K) (options : Options K) : Element K → Bool
  | .image e =>
    match resources.xObject? e.name with
    | some (.image i) => i.decodeAborts options.jpx
    | _ => false
  | _ => false

def elementsAbort (resources : Resources K) (options : Options K) : List (Element K) → Bool :=
  searchAborts (elementAborts resources options) fun e => !(ofElement? resources options e).isOk

end Layer

namespace SoftMaskGroup

def compositeAborts (g : SoftMaskGroup K) (bbox : Rect K) (elements : List (Element K))
    (options : Options K) : Bool :=
  match Grid.size? (bbox.x1 - bbox.x0) (bbox.y1 - bbox.y0) options.softMaskBudget with
  | none => false
  | some (width, height) =>
    Layer.elementsAbort g.resources options elements ||
      match Layer.ofElements g.resources options elements, g.backdropColor? with
      | .ok layers, .ok _ =>
        (Grid.tabulate width height fun col row =>
          bbox.placement.apply (Grid.center width height col row)).any fun p =>
            layers.any fun l => l.1.aborts p
      | _, _ => false

def valueAborts (g : SoftMaskGroup K) (options : Options K) (elements : List (Element K)) :
    Bool :=
  let bbox := g.bbox.normalize
  (constantValue? g.kind bbox elements).isNone && g.compositeAborts bbox elements options

end SoftMaskGroup
end ContentStream
