import ContentStream.Path.Outline
import ContentStream.State

set_option autoImplicit false

namespace ContentStream
variable {K : Type} [Scalar K]

/-- Positive where `p` lies to the left of the line from `a` to `b`, negative to its right. -/
def side (a b p : Point K) : K := (b.x - a.x) * (p.y - a.y) - (p.x - a.x) * (b.y - a.y)

def fillEdges (subpaths : List (Subpath K)) : List (Point K × Point K) :=
  subpaths.flatMap fun s => s.edges true

def crosses (p : Point K) (edge : Point K × Point K) : Bool :=
  let (a, b) := edge
  if decide (p.y < a.y) != decide (p.y < b.y) then
    decide (p.x < (b.x - a.x) * (p.y - a.y) / (b.y - a.y) + a.x)
  else false

def oddCrossings (edges : List (Point K × Point K)) (p : Point K) : Bool :=
  edges.foldl (fun odd edge => odd != crosses p edge) false

def windingStep (p : Point K) (edge : Point K × Point K) : Int :=
  let (a, b) := edge
  if a.y ≤ p.y then
    if p.y < b.y then if 0 < side a b p then 1 else 0 else 0
  else if b.y ≤ p.y then if side a b p < 0 then -1 else 0
  else 0

def windingNumber (edges : List (Point K × Point K)) (p : Point K) : Int :=
  edges.foldl (fun n edge => n + windingStep p edge) 0

def fillContains (subpaths : List (Subpath K)) (rule : FillRule) (p : Point K) : Bool :=
  match rule with
  | .evenOdd => oddCrossings (fillEdges subpaths) p
  | .nonZero => windingNumber (fillEdges subpaths) p != 0

def dotCovers (a : Point K) (half : K) (cap : LineCap) (p : Point K) : Bool :=
  match cap with
  | .round => decide (Scalar.hypot (p.x - a.x) (p.y - a.y) ≤ half)
  | .projecting =>
    decide (Scalar.abs (p.x - a.x) ≤ half) && decide (Scalar.abs (p.y - a.y) ≤ half)
  | .butt => false

def lineCovers (a b : Point K) (half : K) (cap : LineCap) (p : Point K) : Bool :=
  let dx := b.x - a.x
  let dy := b.y - a.y
  let len := Scalar.hypot dx dy
  if len ≤ Scalar.unitSpacing then dotCovers a half cap p
  else
    let ux := dx / len
    let uy := dy / len
    let along := (p.x - a.x) * ux + (p.y - a.y) * uy
    let across := Scalar.abs ((p.x - a.x) * uy - (p.y - a.y) * ux)
    match cap with
    | .round =>
      let t := Scalar.clamp along 0 len
      decide (Scalar.hypot (p.x - (a.x + ux * t)) (p.y - (a.y + uy * t)) ≤ half)
    | .projecting =>
      decide (-half ≤ along) && decide (along ≤ len + half) && decide (across ≤ half)
    | .butt => decide (0 ≤ along) && decide (along ≤ len) && decide (across ≤ half)

def Subpath.strokeCovers (s : Subpath K) (half : K) (cap : LineCap) (p : Point K) : Bool :=
  match s.points with
  | [a] => lineCovers a a half cap p
  | _ => (s.edges s.closed).any fun edge => lineCovers edge.1 edge.2 half cap p

def strokeContains (subpaths : List (Subpath K)) (half : K) (cap : LineCap) (p : Point K) :
    Bool :=
  subpaths.any fun s => s.strokeCovers half cap p

/-- Whether `p` lies on one side of every edge, edges through `p` aside; `sign` is the side found
so far. -/
def sameSide (p : Point K) (sign : K) : List (Point K × Point K) → Bool
  | [] => sign != 0
  | (a, b) :: edges =>
    let cross := side a b p
    if Scalar.abs cross ≤ Scalar.unitSpacing then sameSide p sign edges
    else if sign == 0 then sameSide p (Scalar.signum cross) edges
    else if Scalar.signum cross != sign then false
    else sameSide p sign edges

/-- Whether `p` lies inside a convex quadrilateral, whichever way round it is given. -/
def quadContains (quad : List (Point K)) (p : Point K) : Bool :=
  sameSide p 0 (quad.zip (quad.rotateLeft 1))

end ContentStream
