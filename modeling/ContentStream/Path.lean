import ContentStream.Geometry

set_option autoImplicit false

namespace ContentStream

inductive Segment (K : Type)
  | moveTo (p : Point K)
  | lineTo (p : Point K)
  | curveTo (c1 c2 p : Point K)
  /-- A curve whose first control point is the current point. -/
  | curveToV (c2 p : Point K)
  /-- A curve whose second control point is its end. -/
  | curveToY (c1 p : Point K)
  | rect (x y width height : K)
  | close
  deriving DecidableEq

inductive Paint
  | fill
  | stroke
  | fillStroke
  /-- The path ends without being painted. -/
  | none
  deriving DecidableEq

inductive FillRule
  | nonZero
  | evenOdd
  deriving DecidableEq

namespace Paint

def fills : Paint → Bool
  | fill | fillStroke => true
  | _ => false

def strokes : Paint → Bool
  | stroke | fillStroke => true
  | _ => false

end Paint

def Segment.points {K : Type} [Scalar K] : Segment K → List (Point K)
  | moveTo p | lineTo p => [p]
  | curveTo c1 c2 p => [c1, c2, p]
  | curveToV c2 p => [c2, p]
  | curveToY c1 p => [c1, p]
  | rect x y w h => [⟨x, y⟩, ⟨x + w, y⟩, ⟨x + w, y + h⟩, ⟨x, y + h⟩]
  | close => []

end ContentStream
