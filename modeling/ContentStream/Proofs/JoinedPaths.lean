import Mathlib
import ContentStream.Proofs.FillRules

set_option autoImplicit false

namespace ContentStream
variable {K : Type}

def Segment.beginsSubpath : Segment K → Bool
  | moveTo _ | rect .. => true
  | _ => false

namespace Outline

def behind (done : Array (Subpath K)) (o : Outline K) : Outline K :=
  { o with complete := done ++ o.complete }

@[simp] theorem points_flush (o : Outline K) (closed : Bool) : (o.flush closed).points = #[] := by
  unfold flush
  split
  · exact Array.isEmpty_iff.1 ‹_›
  · rfl

theorem flush_behind (done : Array (Subpath K)) (o : Outline K) (closed : Bool) :
    (o.behind done).flush closed = (o.flush closed).behind done := by
  unfold flush behind
  dsimp only
  split
  · rfl
  · simp only [Array.append_push]

theorem ensureOpen_behind (done : Array (Subpath K)) (o : Outline K) (p : Point K) :
    (o.behind done).ensureOpen p = (o.ensureOpen p).behind done := by
  unfold ensureOpen behind
  dsimp only
  split <;> rfl

theorem lineTo_behind (done : Array (Subpath K)) (o : Outline K) (p : Point K) :
    (o.behind done).lineTo p = (o.lineTo p).behind done := by
  unfold lineTo
  rw [ensureOpen_behind]
  rfl

/-- The mark of an open subpath as closed is all that tells one way to end it from another. -/
theorem points_complete_flush (o : Outline K) (first second : Bool) :
    (o.flush first).complete.toList.map Subpath.points =
      (o.flush second).complete.toList.map Subpath.points := by
  unfold flush
  split
  · rfl
  · simp only [Array.toList_push, List.map_append, List.map_cons, List.map_nil]

variable [Scalar K]

theorem curveTo_behind (done : Array (Subpath K)) (o : Outline K) (c1 : Option (Point K))
    (c2 p : Point K) : (o.behind done).curveTo c1 c2 p = (o.curveTo c1 c2 p).behind done := by
  unfold curveTo
  rw [ensureOpen_behind]
  rfl

theorem add_behind (m : Transform K) (done : Array (Subpath K)) (o : Outline K) (x : Segment K) :
    (o.behind done).add m x = (o.add m x).behind done := by
  cases x with
  | moveTo p =>
    simp only [add, flush_behind]
    rfl
  | lineTo p => exact lineTo_behind done o _
  | curveTo | curveToV | curveToY => exact curveTo_behind done o _ _ _
  | rect x y w h =>
    simp only [add, flush_behind]
    simp only [behind, Array.append_push]
  | close =>
    simp only [add, flush_behind]
    rfl

theorem foldl_add_behind (m : Transform K) (done : Array (Subpath K)) (xs : List (Segment K))
    (o : Outline K) :
    xs.foldl (add m) (o.behind done) = (xs.foldl (add m) o).behind done := by
  induction xs generalizing o with
  | nil => rfl
  | cons x xs ih => rw [List.foldl_cons, List.foldl_cons, add_behind, ih]

/-- A segment that begins a subpath leaves the same as at the beginning of a path, behind all that
is there. -/
theorem add_beginning (m : Transform K) (o : Outline K) {x : Segment K}
    (hx : x.beginsSubpath = true) :
    o.add m x = (add m empty x).behind (o.flush false).complete := by
  have hnew : (empty : Outline K).flush false = empty := rfl
  cases x with
  | moveTo p =>
    simp only [add, hnew]
    simp only [behind, empty, Array.append_empty]
  | rect x y w h =>
    simp only [add, hnew, points_flush]
    simp only [behind, empty, Array.append_push, Array.append_empty]
  | _ => exact absurd hx (by simp [Segment.beginsSubpath])

end Outline

variable [Scalar K]

theorem flatten_append (a : List (Segment K)) {b : List (Segment K)} (m : Transform K)
    (hb : b.head?.any Segment.beginsSubpath = true) :
    flatten (a ++ b) m = flatten a m ++ flatten b m := by
  cases b with
  | nil => exact absurd hb (by simp)
  | cons x b =>
    have hx : x.beginsSubpath = true := hb
    unfold flatten
    rw [List.foldl_append, List.foldl_cons, List.foldl_cons, Outline.add_beginning m _ hx,
      Outline.foldl_add_behind, Outline.flush_behind]
    exact Array.toList_append

theorem flatten_concat_close (segments : List (Segment K)) (m : Transform K) :
    (flatten (segments ++ [.close]) m).map Subpath.points =
      (flatten segments m).map Subpath.points := by
  have hclose : ∀ o : Outline K, (o.add m .close).flush false = o.add m .close := by
    intro o
    refine if_pos ?_
    change (o.flush true).points.isEmpty = true
    rw [Outline.points_flush]
    rfl
  unfold flatten
  rw [List.foldl_append, List.foldl_cons, List.foldl_nil, hclose]
  exact Outline.points_complete_flush _ true false

section Rules
variable (p : Point K)

theorem foldl_crosses (edges : List (Point K × Point K)) (odd : Bool) :
    edges.foldl (fun odd edge => odd != crosses p edge) odd = (odd ^^ oddCrossings edges p) := by
  unfold oddCrossings
  induction edges generalizing odd with
  | nil => exact (Bool.xor_false odd).symm
  | cons e edges ih =>
    rw [List.foldl_cons, List.foldl_cons, ih, ih (false != crosses p e), Bool.xor_assoc]
    cases odd <;> cases crosses p e <;> rfl

theorem oddCrossings_append (xs ys : List (Point K × Point K)) :
    oddCrossings (xs ++ ys) p = (oddCrossings xs p ^^ oddCrossings ys p) := by
  rw [oddCrossings, List.foldl_append]
  exact foldl_crosses p ys (oddCrossings xs p)

theorem windingNumber_append (xs ys : List (Point K × Point K)) :
    windingNumber (xs ++ ys) p = windingNumber xs p + windingNumber ys p := by
  simp only [windingNumber_eq_sum, List.map_append, List.sum_append]

end Rules

theorem fillEdges_append (s t : List (Subpath K)) :
    fillEdges (s ++ t) = fillEdges s ++ fillEdges t :=
  List.flatMap_append

theorem fillEdges_congr {s t : List (Subpath K)}
    (h : s.map Subpath.points = t.map Subpath.points) : fillEdges s = fillEdges t := by
  have hpoints : ∀ subpaths : List (Subpath K), fillEdges subpaths =
      (subpaths.map Subpath.points).flatMap fun ps => (Subpath.mk ps true).edges true := by
    intro subpaths
    rw [List.flatMap_map]
    rfl
  rw [hpoints s, hpoints t, h]

theorem fillContains_congr {s t : List (Subpath K)} (h : fillEdges s = fillEdges t)
    (rule : FillRule) (p : Point K) : fillContains s rule p = fillContains t rule p := by
  unfold fillContains
  rw [h]

theorem fillContains_evenOdd_append (s t : List (Subpath K)) (p : Point K) :
    fillContains (s ++ t) .evenOdd p =
      (fillContains s .evenOdd p ^^ fillContains t .evenOdd p) := by
  simp only [fillContains, fillEdges_append, oddCrossings_append]

theorem fillContains_nonZero_append {s t : List (Subpath K)} {p : Point K}
    (h : fillContains (s ++ t) .nonZero p = true) :
    fillContains s .nonZero p = true ∨ fillContains t .nonZero p = true := by
  simp only [fillContains, fillEdges_append, windingNumber_append, bne_iff_ne] at h ⊢
  omega

theorem strokeContains_append (s t : List (Subpath K)) (half : K) (cap : LineCap) (p : Point K) :
    strokeContains (s ++ t) half cap p =
      (strokeContains s half cap p || strokeContains t half cap p) :=
  List.any_append

/-- A path that begins a subpath of its own is flattened behind another path as it is alone. Under
the even-odd rule the two together cover what exactly one of them covers, under the other rule
nothing that neither covers, and stroked what either covers. A close at the end of a path changes
nothing that is filled. -/
theorem coverage_append (a : List (Segment K)) (m : Transform K) :
    (∀ b : List (Segment K), b.head?.any Segment.beginsSubpath = true →
      flatten (a ++ b) m = flatten a m ++ flatten b m ∧
      (∀ p, fillContains (flatten (a ++ b) m) .evenOdd p =
        (fillContains (flatten a m) .evenOdd p ^^ fillContains (flatten b m) .evenOdd p)) ∧
      (∀ p, fillContains (flatten (a ++ b) m) .nonZero p = true →
        fillContains (flatten a m) .nonZero p = true ∨
          fillContains (flatten b m) .nonZero p = true) ∧
      ∀ half cap p, strokeContains (flatten (a ++ b) m) half cap p =
        (strokeContains (flatten a m) half cap p || strokeContains (flatten b m) half cap p)) ∧
    ∀ rule p, fillContains (flatten (a ++ [.close]) m) rule p =
      fillContains (flatten a m) rule p := by
  constructor
  · intro b hb
    rw [flatten_append a m hb]
    refine ⟨rfl, ?_, ?_, ?_⟩
    · exact fillContains_evenOdd_append _ _
    · exact fun p => fillContains_nonZero_append
    · exact strokeContains_append _ _
  · exact fillContains_congr (fillEdges_congr (flatten_concat_close a m))

/-- A triangle without a move before it, whose end is left open, and a square across its edge. -/
theorem coverage_append_openTriangle :
    let a : List (Segment ℚ) := [.lineTo ⟨0, 0⟩, .curveToV ⟨4, 0⟩ ⟨4, 0⟩, .lineTo ⟨4, 4⟩]
    let b : List (Segment ℚ) := [.rect 2 0 4 1, .lineTo ⟨9, 9⟩]
    b.head?.any Segment.beginsSubpath = true ∧
    fillContains (flatten (a ++ b) .identity) .evenOdd ⟨3, 1 / 2⟩ = false ∧
    (fillContains (flatten a .identity) .nonZero ⟨5, 1 / 2⟩ = true ∨
      fillContains (flatten b .identity) .nonZero ⟨5, 1 / 2⟩ = true) ∧
    strokeContains (flatten (a ++ b) .identity) (1 / 4) .round ⟨9, 9⟩ = true ∧
    fillContains (flatten (a ++ [.close]) .identity) .nonZero ⟨3, 1⟩ = true := by
  intro a b
  have hb : b.head?.any Segment.beginsSubpath = true := rfl
  obtain ⟨hjoined, hclose⟩ := coverage_append a .identity
  obtain ⟨-, heven, hnonZero, hstroke⟩ := hjoined b hb
  refine ⟨hb, ?_, ?_, ?_, ?_⟩
  · rw [heven]
    decide +kernel
  · exact hnonZero _ (by decide +kernel)
  · rw [hstroke]
    decide +kernel
  · rw [hclose]
    decide +kernel

end ContentStream
