import ContentStream.Geometry

set_option autoImplicit false

namespace ContentStream.Grid
variable {K : Type} [Scalar K]

/-- The size of a grid over a `width × height` area whose longer side gets `budget` pixels and
whose other side keeps the proportion, with one pixel at least. -/
def size? (width height : K) (budget : Nat) : Option (Nat × Nat) :=
  if budget == 0 || !Scalar.isFinite width || !Scalar.isFinite height then none
  else if width ≤ 0 || height ≤ 0 then none
  else
    let short := fun ratio : K =>
      Nat.min budget (Nat.max 1 (Nat.min (Scalar.round ((budget : K) * ratio)) (UInt32.size - 1)))
    if height ≤ width then some (budget, short (height / width))
    else some (short (width / height), budget)

def center (width height col row : Nat) : Point K :=
  ⟨((col : K) + 0.5) / (width : K), 1 - ((row : K) + 0.5) / (height : K)⟩

/-- The column and row of the pixel that holds a point of the unit square, which is open at the
right and at the top. -/
def cell? (width height : Nat) (p : Point K) : Option (Nat × Nat) :=
  if 0 ≤ p.x ∧ p.x < 1 ∧ 0 ≤ p.y ∧ p.y < 1 then
    some (Nat.min (Scalar.toWord (p.x * (width : K))) (width - 1),
      Nat.min (Scalar.toWord ((1 - p.y) * (height : K))) (height - 1))
  else none

def tabulate {α : Type} (width height : Nat) (f : Nat → Nat → α) : List α :=
  (List.range (width * height)).map fun i => f (i % width) (i / width)

end ContentStream.Grid
