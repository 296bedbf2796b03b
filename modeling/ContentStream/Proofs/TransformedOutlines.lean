import Mathlib
import ContentStream.Path.Outline
import ContentStream.Proofs.Transforms

set_option autoImplicit false

namespace ContentStream

section Maps
variable {K : Type} (f : Point K → Point K)

def Subpath.map (s : Subpath K) : Subpath K := { s with points := s.points.map f }

namespace Outline

def map (o : Outline K) : Outline K where
  complete := o.complete.map (Subpath.map f)
  points := o.points.map f
  start := o.start.map f
  current := o.current.map f

theorem isEmpty_map (o : Outline K) : (o.map f).points.isEmpty = o.points.isEmpty := by
  simp [map, Array.isEmpty]

theorem map_flush (o : Outline K) (closed : Bool) :
    (o.map f).flush closed = (o.flush closed).map f := by
  unfold flush
  rw [isEmpty_map]
  split
  · rfl
  · simp [map, Subpath.map]

theorem map_ensureOpen (o : Outline K) (p : Point K) :
    (o.map f).ensureOpen (f p) = (o.ensureOpen p).map f := by
  unfold ensureOpen
  rw [isEmpty_map]
  split
  · simp [map]
  · rfl

theorem map_appendList (points : Array (Point K)) (ps : List (Point K)) :
    (points ++ ps).map f = points.map f ++ ps.map f := by
  apply Array.toList_inj.1
  rw [Array.toList_map, Array.toList_appendList, Array.toList_appendList, List.map_append,
    Array.toList_map]

end Outline
end Maps

variable {K : Type} [ExactField K]

theorem curvePoint_apply (c : Transform K) (p0 p1 p2 p3 : Point K) (t : K) :
    curvePoint (c.apply p0) (c.apply p1) (c.apply p2) (c.apply p3) t =
      c.apply (curvePoint p0 p1 p2 p3 t) := by
  -- The weights add up to one, so that the translation comes out once.
  simp only [curvePoint, Transform.apply, Nat.cast_ofNat, Point.mk.injEq]
  constructor <;> ring

theorem curvePoints_apply (c : Transform K) (p0 p1 p2 p3 : Point K) :
    curvePoints (c.apply p0) (c.apply p1) (c.apply p2) (c.apply p3) =
      (curvePoints p0 p1 p2 p3).map c.apply := by
  simp only [curvePoints, curvePoint_apply, List.map_map, Function.comp_def]

namespace Outline
variable (c : Transform K)

theorem map_lineTo (o : Outline K) (p : Point K) :
    (o.map c.apply).lineTo (c.apply p) = (o.lineTo p).map c.apply := by
  unfold lineTo
  rw [map_ensureOpen]
  simp [map]

theorem map_curveTo (o : Outline K) (c1 : Option (Point K)) (c2 p : Point K) :
    (o.map c.apply).curveTo (c1.map c.apply) (c.apply c2) (c.apply p) =
      (o.curveTo c1 c2 p).map c.apply := by
  unfold curveTo
  rw [map_ensureOpen]
  simp [map, map_appendList, curvePoints_apply]

theorem map_add (m : Transform K) (o : Outline K) (x : Segment K) :
    (o.map c.apply).add (m.compose c) x = (o.add m x).map c.apply := by
  cases x with
  | moveTo p =>
    simp only [add, map_flush, Transform.apply_compose]
    simp [map]
  | lineTo p =>
    simp only [add, Transform.apply_compose]
    exact map_lineTo c o _
  | curveTo | curveToY =>
    simp only [add, Transform.apply_compose]
    exact map_curveTo c o (some _) _ _
  | curveToV c2 p =>
    simp only [add, Transform.apply_compose]
    exact map_curveTo c o none _ _
  | rect x y w h =>
    have hcompose : (m.compose c).apply = c.apply ∘ m.apply := funext (m.apply_compose c)
    simp only [add, map_flush, hcompose]
    simp [map, Subpath.map]
  | close =>
    simp only [add, map_flush]
    rfl

theorem map_foldl_add (m : Transform K) (xs : List (Segment K)) (o : Outline K) :
    xs.foldl (add (m.compose c)) (o.map c.apply) = (xs.foldl (add m) o).map c.apply := by
  induction xs generalizing o with
  | nil => rfl
  | cons x xs ih => rw [List.foldl_cons, List.foldl_cons, map_add, ih]

end Outline

/-- Under a transform that is followed by another one, a path is flattened to the images of the
points that it is flattened to under the first one alone. -/
theorem flatten_compose (segments : List (Segment K)) (m c : Transform K) :
    flatten segments (m.compose c) =
      (flatten segments m).map fun s => ⟨s.points.map c.apply, s.closed⟩ := by
  have hempty : (Outline.empty : Outline K).map c.apply = .empty := by
    simp [Outline.map, Outline.empty]
  have hrun : segments.foldl (Outline.add (m.compose c)) .empty =
      (segments.foldl (Outline.add m) .empty).map c.apply := by
    rw [← Outline.map_foldl_add, hempty]
  unfold flatten
  rw [hrun, Outline.map_flush]
  exact Array.toList_map ..

end ContentStream
