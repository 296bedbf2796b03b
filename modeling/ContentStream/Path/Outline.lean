import ContentStream.Path

set_option autoImplicit false

/-!
# Outlines

Paths flattened to polygons on the page. A curve becomes twenty lines, and every subpath knows
whether it was closed.
-/
namespace ContentStream
variable {K : Type} [Scalar K]

structure Subpath (K : Type) where
  points : List (Point K)
  closed : Bool
  deriving DecidableEq

namespace Subpath

/-- The line back to the first point, unless the last one lies there. -/
def closingEdge (s : Subpath K) : List (Point K × Point K) :=
  match s.points with
  | first :: second :: rest =>
    let last := (second :: rest).getLast (List.cons_ne_nil _ _)
    if first == last then [] else [(last, first)]
  | _ => []

def edges (s : Subpath K) (close : Bool) : List (Point K × Point K) :=
  s.points.zip s.points.tail ++ if close then s.closingEdge else []

end Subpath

def curveLines : Nat := 20

def curvePoint (p0 p1 p2 p3 : Point K) (t : K) : Point K :=
  let three := ((3 : Nat) : K)
  let u := 1 - t
  let a := u * u * u
  let b := three * u * u * t
  let c := three * u * t * t
  let d := t * t * t
  ⟨a * p0.x + b * p1.x + c * p2.x + d * p3.x, a * p0.y + b * p1.y + c * p2.y + d * p3.y⟩

def curvePoints (p0 p1 p2 p3 : Point K) : List (Point K) :=
  (List.range curveLines).map fun i =>
    curvePoint p0 p1 p2 p3 (((i + 1 : Nat) : K) / (curveLines : K))

/-- A path that is being flattened: the subpaths that are complete, the points of the open one,
where the subpath began, and the current point. -/
structure Outline (K : Type) where
  complete : Array (Subpath K)
  points : Array (Point K)
  start : Option (Point K)
  current : Option (Point K)

namespace Outline

def empty : Outline K := ⟨#[], #[], none, none⟩

def flush (o : Outline K) (closed : Bool) : Outline K :=
  if o.points.isEmpty then o
  else { o with complete := o.complete.push ⟨o.points.toList, closed⟩, points := #[] }

/-- Begins a subpath at the current point, or else at `p`, unless one is open. -/
def ensureOpen (o : Outline K) (p : Point K) : Outline K :=
  if o.points.isEmpty then
    let start := o.current.getD p
    { o with points := #[start], start := some start }
  else o

def lineTo (o : Outline K) (p : Point K) : Outline K :=
  let o := o.ensureOpen p
  { o with points := o.points.push p, current := some p }

def curveTo (o : Outline K) (c1 : Option (Point K)) (c2 p : Point K) : Outline K :=
  let p0 := o.current.getD p
  let o := o.ensureOpen p
  { o with points := o.points ++ curvePoints p0 (c1.getD p0) c2 p, current := some p }

def add (m : Transform K) (o : Outline K) : Segment K → Outline K
  | .moveTo p =>
    let p := m.apply p
    { o.flush false with points := #[p], start := some p, current := some p }
  | .lineTo p => o.lineTo (m.apply p)
  | .curveTo c1 c2 p => o.curveTo (some (m.apply c1)) (m.apply c2) (m.apply p)
  | .curveToV c2 p => o.curveTo none (m.apply c2) (m.apply p)
  | .curveToY c1 p => o.curveTo (some (m.apply c1)) (m.apply p) (m.apply p)
  | .rect x y w h =>
    let corners := (Segment.rect x y w h).points.map m.apply
    let o := o.flush false
    { o with
      complete := o.complete.push ⟨corners, true⟩
      start := corners.head?
      current := corners.head? }
  | .close => let o := o.flush true; { o with current := o.start }

end Outline

def flatten (segments : List (Segment K)) (m : Transform K) : List (Subpath K) :=
  ((segments.foldl (Outline.add m) .empty).flush false).complete.toList

def pathBounds (segments : List (Segment K)) (m : Transform K) : Rect K :=
  Rect.bounding ((segments.flatMap Segment.points).map m.apply)

end ContentStream
