import ContentStream.Grid

set_option autoImplicit false

namespace ContentStream
variable {K : Type} [Scalar K]

inductive MaskKind
  /-- The coverage. -/
  | alpha
  /-- The luminance of the composited colour, scaled by the coverage. -/
  | luminosity
  deriving DecidableEq

/-- A grid over the area `bbox` of its own space, which `matrix` places on the page from the unit
square. -/
structure Mask (K : Type) where
  kind : MaskKind
  width : Nat
  height : Nat
  alpha : Array UInt8
  bbox : Rect K
  matrix : Transform K
  deriving DecidableEq

namespace Mask

def pixelCenter (m : Mask K) (col row : Nat) : Point K :=
  m.matrix.apply (Grid.center m.width m.height col row)

def get (m : Mask K) (col row : Nat) : UInt8 := m.alpha.getD (row * m.width + col) 0

/-- The alpha of the pixel over a point of the page, zero outside the grid. -/
def sample (m : Mask K) (p : Point K) : UInt8 :=
  match m.matrix.inverse? with
  | none => 0
  | some inverse =>
    match Grid.cell? m.width m.height (inverse.apply p) with
    | none => 0
    | some (col, row) => m.get col row

def isConsistent (m : Mask K) : Bool :=
  m.width != 0 && m.height != 0 && m.alpha.size == m.width * m.height

end Mask
end ContentStream
