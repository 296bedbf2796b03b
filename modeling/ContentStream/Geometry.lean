import ContentStream.Scalar

set_option autoImplicit false

namespace ContentStream

structure Point (K : Type) where
  x : K
  y : K
  deriving BEq, DecidableEq

structure Rect (K : Type) where
  x0 : K
  y0 : K
  x1 : K
  y1 : K
  deriving BEq, DecidableEq

/-- The affine map from `(x, y)` to `(a x + c y + e, b x + d y + f)`. -/
structure Transform (K : Type) where
  a : K
  b : K
  c : K
  d : K
  e : K
  f : K
  deriving BEq, DecidableEq

variable {K : Type} [Scalar K]

namespace Transform

def identity : Transform K := ⟨1, 0, 0, 1, 0, 0⟩

def apply (m : Transform K) (p : Point K) : Point K :=
  ⟨m.a * p.x + m.c * p.y + m.e, m.b * p.x + m.d * p.y + m.f⟩

def compose (m n : Transform K) : Transform K where
  a := n.a * m.a + n.c * m.b
  b := n.b * m.a + n.d * m.b
  c := n.a * m.c + n.c * m.d
  d := n.b * m.c + n.d * m.d
  e := n.a * m.e + n.c * m.f + n.e
  f := n.b * m.e + n.d * m.f + n.f

def translate (m : Transform K) (p : Point K) : Transform K :=
  { m with e := p.x * m.a + p.y * m.c + m.e, f := p.x * m.b + p.y * m.d + m.f }

/-- Moves the image of the origin along the first axis. -/
def shift (m : Transform K) (dx : K) : Transform K := { m with e := m.e + dx }

def determinant (m : Transform K) : K := m.a * m.d - m.b * m.c

/-- The inverse, unless the determinant is too near zero or not finite. -/
def inverse? (m : Transform K) : Option (Transform K) :=
  let det := m.determinant
  if Scalar.abs det < Scalar.tolerance || !Scalar.isFinite det then none
  else
    let a := m.d / det
    let b := -m.b / det
    let c := -m.c / det
    let d := m.a / det
    some ⟨a, b, c, d, -(m.e * a + m.f * c), -(m.e * b + m.f * d)⟩

def isIdentity (m : Transform K) : Bool :=
  let near := fun x y : K => Scalar.approxEq x y Scalar.tolerance
  near m.a 1 && near m.b 0 && near m.c 0 && near m.d 1 && near m.e 0 && near m.f 0

end Transform

namespace Rect

def unbounded : Rect K :=
  ⟨-Scalar.maxFinite, -Scalar.maxFinite, Scalar.maxFinite, Scalar.maxFinite⟩

def extend (r : Rect K) (p : Point K) : Rect K :=
  ⟨Scalar.min r.x0 p.x, Scalar.min r.y0 p.y, Scalar.max r.x1 p.x, Scalar.max r.y1 p.y⟩

/-- The bounding box of some points; for none, the unbounded rectangle turned inside out. -/
def bounding (ps : List (Point K)) : Rect K :=
  ps.foldl extend
    ⟨Scalar.maxFinite, Scalar.maxFinite, -Scalar.maxFinite, -Scalar.maxFinite⟩

def corners (r : Rect K) : List (Point K) :=
  [⟨r.x0, r.y0⟩, ⟨r.x1, r.y0⟩, ⟨r.x1, r.y1⟩, ⟨r.x0, r.y1⟩]

def normalize (r : Rect K) : Rect K :=
  ⟨Scalar.min r.x0 r.x1, Scalar.min r.y0 r.y1, Scalar.max r.x0 r.x1, Scalar.max r.y0 r.y1⟩

/-- The common part, inside out where there is none. -/
def intersect (r s : Rect K) : Rect K :=
  ⟨Scalar.max r.x0 s.x0, Scalar.max r.y0 s.y0, Scalar.min r.x1 s.x1, Scalar.min r.y1 s.y1⟩

def area (r : Rect K) : K := Scalar.max (r.x1 - r.x0) 0 * Scalar.max (r.y1 - r.y0) 0

def isFinite (r : Rect K) : Bool :=
  Scalar.isFinite r.x0 && Scalar.isFinite r.y0 && Scalar.isFinite r.x1 && Scalar.isFinite r.y1

def isDrawable (r : Rect K) : Bool :=
  r.isFinite && decide (0 < r.x1 - r.x0) && decide (0 < r.y1 - r.y0)

def approxEq (r s : Rect K) (tolerance : K) : Bool :=
  Scalar.approxEq r.x0 s.x0 tolerance && Scalar.approxEq r.y0 s.y0 tolerance &&
  Scalar.approxEq r.x1 s.x1 tolerance && Scalar.approxEq r.y1 s.y1 tolerance

def placement (r : Rect K) : Transform K := ⟨r.x1 - r.x0, 0, 0, r.y1 - r.y0, r.x0, r.y0⟩

end Rect

def Transform.applyRect (m : Transform K) (r : Rect K) : Rect K :=
  Rect.bounding (r.corners.map m.apply)

end ContentStream
