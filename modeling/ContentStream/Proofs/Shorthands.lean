import Mathlib
import ContentStream.Proofs.JoinedPaths

set_option autoImplicit false

namespace ContentStream
variable {K : Type}

namespace Segment

def finish? : Segment K → Option (Point K)
  | moveTo p | lineTo p | curveTo _ _ p | curveToV _ p | curveToY _ p => some p
  | rect .. | close => none

/-- Where the subpath of a segment begins, if the one before it began at `start`. Without one, a
line or a curve begins at its own end. -/
def startAfter (start : Option (Point K)) : Segment K → Option (Point K)
  | moveTo p => some p
  | rect x y _ _ => some ⟨x, y⟩
  | lineTo p | curveTo _ _ p | curveToV _ p | curveToY _ p => some (start.getD p)
  | close => start

def isShorthand : Segment K → Bool
  | rect .. | curveToV .. | curveToY .. => true
  | _ => false

end Segment

def subpathStart? (segments : List (Segment K)) : Option (Point K) :=
  segments.foldl Segment.startAfter none

def currentPoint? (segments : List (Segment K)) : Option (Point K) :=
  (segments.getLast?.bind Segment.finish?).or (subpathStart? segments)

theorem subpathStart?_concat (segments : List (Segment K)) (x : Segment K) :
    subpathStart? (segments ++ [x]) = x.startAfter (subpathStart? segments) := by
  unfold subpathStart?
  rw [List.foldl_append, List.foldl_cons, List.foldl_nil]

theorem currentPoint?_concat (segments : List (Segment K)) (x : Segment K) :
    currentPoint? (segments ++ [x]) = x.finish?.or (x.startAfter (subpathStart? segments)) := by
  unfold currentPoint?
  rw [List.getLast?_concat, Option.bind_some, subpathStart?_concat]

namespace Outline

theorem start_flush (o : Outline K) (closed : Bool) : (o.flush closed).start = o.start := by
  unfold flush
  split <;> rfl

theorem isEmpty_flush (o : Outline K) (closed : Bool) : (o.flush closed).points.isEmpty = true := by
  rw [points_flush]
  rfl

theorem points_ensureOpen (o : Outline K) (p : Point K) : (o.ensureOpen p).points.toList ≠ [] := by
  unfold ensureOpen
  split
  · simp
  · rename_i hopen
    simpa using hopen

variable [Scalar K]

/-- The outline of some segments goes on from their current point, and closes to the start of their
last subpath. Between subpaths the two are the same. -/
structure Tracks (m : Transform K) (segments : List (Segment K)) (o : Outline K) : Prop where
  start : o.start = (subpathStart? segments).map m.apply
  current : o.current = (currentPoint? segments).map m.apply
  between : o.points.isEmpty = true → currentPoint? segments = subpathStart? segments
  opened : o.points.isEmpty = false → (subpathStart? segments).isSome = true

namespace Tracks
variable {m : Transform K} {segments : List (Segment K)} {o : Outline K} {x : Segment K}

theorem empty (m : Transform K) : (Outline.empty : Outline K).Tracks m [] :=
  ⟨rfl, rfl, fun _ => rfl, fun hopen => absurd hopen (by simp [Outline.empty])⟩

theorem start_ensureOpen (h : o.Tracks m segments) (p : Point K) :
    (o.ensureOpen (m.apply p)).start = some (m.apply ((subpathStart? segments).getD p)) := by
  unfold Outline.ensureOpen
  split
  · rename_i hempty
    rw [h.current, h.between hempty]
    exact congrArg some (Option.getD_map ..)
  · rename_i hopen
    obtain ⟨s, hs⟩ := Option.isSome_iff_exists.1 (h.opened (Bool.eq_false_of_not_eq_true hopen))
    rw [h.start, hs]
    rfl

theorem concat (hstart : o.start = (x.startAfter (subpathStart? segments)).map m.apply)
    (hcurrent : o.current =
      (x.finish?.or (x.startAfter (subpathStart? segments))).map m.apply)
    (hbetween : o.points.isEmpty = true → x.finish? = none)
    (hopened : o.points.isEmpty = false → (x.startAfter (subpathStart? segments)).isSome = true) :
    o.Tracks m (segments ++ [x]) where
  start := by rw [subpathStart?_concat, hstart]
  current := by rw [currentPoint?_concat, hcurrent]
  between hempty := by
    rw [currentPoint?_concat, subpathStart?_concat, hbetween hempty, Option.none_or]
  opened hopen := by
    rw [subpathStart?_concat]
    exact hopened hopen

theorem extend (h : o.Tracks m segments) {p : Point K} (hfinish : x.finish? = some p)
    (hstart : ∀ start, x.startAfter start = some (start.getD p)) {points : Array (Point K)}
    (hpoints : points.toList ≠ []) :
    ({ o.ensureOpen (m.apply p) with points := points, current := some (m.apply p) } :
      Outline K).Tracks m (segments ++ [x]) := by
  refine concat ?_ ?_ ?_ ?_
  · rw [hstart]
    exact h.start_ensureOpen p
  · rw [hfinish]
    rfl
  · intro hempty
    exact absurd (congrArg Array.toList (Array.isEmpty_iff.1 hempty)) hpoints
  · intro _
    rw [hstart]
    rfl

theorem lineTo (h : o.Tracks m segments) {p : Point K} (hfinish : x.finish? = some p)
    (hstart : ∀ start, x.startAfter start = some (start.getD p)) :
    (o.lineTo (m.apply p)).Tracks m (segments ++ [x]) :=
  h.extend hfinish hstart (by simp)

theorem curveTo (h : o.Tracks m segments) {p : Point K} (hfinish : x.finish? = some p)
    (hstart : ∀ start, x.startAfter start = some (start.getD p)) (c1 : Option (Point K))
    (c2 : Point K) : (o.curveTo c1 c2 (m.apply p)).Tracks m (segments ++ [x]) := by
  refine h.extend hfinish hstart ?_
  rw [Array.toList_appendList]
  exact List.append_ne_nil_of_left_ne_nil (o.points_ensureOpen _) _

theorem add (h : o.Tracks m segments) (x : Segment K) :
    (o.add m x).Tracks m (segments ++ [x]) := by
  cases x with
  | moveTo p =>
    exact concat rfl rfl (fun hempty => absurd hempty (by simp [Outline.add])) fun _ => rfl
  | lineTo p => exact h.lineTo rfl fun _ => rfl
  | curveTo c1 c2 p => exact h.curveTo rfl (fun _ => rfl) _ _
  | curveToV c2 p => exact h.curveTo rfl (fun _ => rfl) _ _
  | curveToY c1 p => exact h.curveTo rfl (fun _ => rfl) _ _
  | rect x y w height => exact concat rfl rfl (fun _ => rfl) fun _ => rfl
  | close =>
    have hstart : (o.flush true).start = (subpathStart? segments).map m.apply := by
      rw [start_flush, h.start]
    refine concat hstart hstart (fun _ => rfl) fun hopen => ?_
    exact absurd ((isEmpty_flush o true).symm.trans hopen) (by simp)

theorem foldl (h : o.Tracks m segments) (xs : List (Segment K)) :
    (xs.foldl (Outline.add m) o).Tracks m (segments ++ xs) := by
  induction xs generalizing segments o with
  | nil => rwa [List.append_nil]
  | cons x xs ih =>
    rw [List.append_cons]
    exact ih (h.add x)

end Tracks

end Outline

variable [Scalar K]

/-- What a segment is short for where `current` is the current point. Without one, a curve has its
own end for a first control point. -/
def Segment.expansion (current : Option (Point K)) : Segment K → List (Segment K)
  | rect x y w h =>
    [moveTo ⟨x, y⟩, lineTo ⟨x + w, y⟩, lineTo ⟨x + w, y + h⟩, lineTo ⟨x, y + h⟩, close]
  | curveToV c2 p => [curveTo (current.getD p) c2 p]
  | curveToY c1 p => [curveTo c1 p p]
  | x => [x]

def expandedAfter (before : List (Segment K)) : List (Segment K) → List (Segment K)
  | [] => []
  | x :: xs => x.expansion (currentPoint? before) ++ expandedAfter (before ++ [x]) xs

theorem isShorthand_of_mem_expandedAfter {before xs : List (Segment K)} {y : Segment K}
    (h : y ∈ expandedAfter before xs) : y.isShorthand = false := by
  induction xs generalizing before with
  | nil => exact absurd h List.not_mem_nil
  | cons x xs ih =>
    rcases List.mem_append.1 h with hy | hy
    · cases x <;> simp only [Segment.expansion, List.mem_cons, List.not_mem_nil, or_false] at hy
      case rect => rcases hy with rfl | rfl | rfl | rfl | rfl <;> rfl
      all_goals rw [hy]; rfl
    · exact ih hy

namespace Outline

/-- Four lines and a close after a move leave what the rectangle does. -/
theorem foldl_expansion_rect (m : Transform K) (o : Outline K) (current : Option (Point K))
    (x y w h : K) :
    ((Segment.rect x y w h).expansion current).foldl (add m) o = o.add m (.rect x y w h) := by
  have hrect : o.add m (.rect x y w h) =
      { o.flush false with
        complete := (o.flush false).complete.push
          ⟨(Segment.rect x y w h).points.map m.apply, true⟩
        points := #[]
        start := some (m.apply ⟨x, y⟩)
        current := some (m.apply ⟨x, y⟩) } := by
    simp only [add, points_flush]
    rfl
  rw [hrect]
  rfl

namespace Tracks
variable {m : Transform K} {before : List (Segment K)} {o : Outline K}

theorem curveTo_current (h : o.Tracks m before) (c2 p : Point K) :
    o.curveTo (some (m.apply ((currentPoint? before).getD p))) c2 (m.apply p) =
      o.curveTo none c2 (m.apply p) := by
  unfold Outline.curveTo
  rw [h.current, Option.getD_map]
  rfl

theorem foldl_expansion (h : o.Tracks m before) (x : Segment K) :
    (x.expansion (currentPoint? before)).foldl (Outline.add m) o = o.add m x := by
  cases x with
  | curveToV c2 p => exact h.curveTo_current _ p
  | rect x y w height => exact foldl_expansion_rect ..
  | _ => rfl

theorem foldl_expandedAfter (h : o.Tracks m before) (xs : List (Segment K)) :
    (expandedAfter before xs).foldl (Outline.add m) o = xs.foldl (Outline.add m) o := by
  induction xs generalizing before o with
  | nil => rfl
  | cons x xs ih =>
    rw [expandedAfter, List.foldl_append, h.foldl_expansion, List.foldl_cons]
    exact ih (h.add x)

end Tracks
end Outline

theorem flatten_splice (before after : List (Segment K)) {xs ys : List (Segment K)}
    (m : Transform K) (h : ∀ o : Outline K, o.Tracks m before →
      xs.foldl (Outline.add m) o = ys.foldl (Outline.add m) o) :
    flatten (before ++ xs ++ after) m = flatten (before ++ ys ++ after) m := by
  have hbefore := (Outline.Tracks.empty m).foldl before
  unfold flatten
  simp only [List.foldl_append, h _ hbefore]

theorem flatten_expansion (before after : List (Segment K)) (x : Segment K) (m : Transform K) :
    flatten (before ++ x :: after) m =
      flatten (before ++ x.expansion (currentPoint? before) ++ after) m := by
  rw [List.append_cons]
  exact flatten_splice before after m fun o ho => (ho.foldl_expansion x).symm

/-- Wherever in a path a shorthand stands, what it is short for is flattened the same, and so is
the path with everything behind some point of it written out. A curve from the current point has
that point for a first control point if there is one. -/
theorem flatten_shorthand (before after : List (Segment K)) (m : Transform K) :
    (∀ x y w h, flatten (before ++ .rect x y w h :: after) m =
      flatten (before ++ [.moveTo ⟨x, y⟩, .lineTo ⟨x + w, y⟩, .lineTo ⟨x + w, y + h⟩,
        .lineTo ⟨x, y + h⟩, .close] ++ after) m) ∧
    (∀ c1 p, flatten (before ++ .curveToY c1 p :: after) m =
      flatten (before ++ .curveTo c1 p p :: after) m) ∧
    (∀ c c2 p, currentPoint? before = some c →
      flatten (before ++ .curveToV c2 p :: after) m =
        flatten (before ++ .curveTo c c2 p :: after) m) ∧
    flatten (before ++ expandedAfter before after) m = flatten (before ++ after) m ∧
    ∀ x ∈ expandedAfter before after, x.isShorthand = false := by
  refine ⟨fun x y w h => ?_, fun c1 p => ?_, fun c c2 p hcurrent => ?_, ?_, ?_⟩
  · exact flatten_expansion before after (.rect x y w h) m
  · rw [flatten_expansion before after (.curveToY c1 p) m, List.append_cons _ _ after]
    rfl
  · rw [flatten_expansion before after (.curveToV c2 p) m, List.append_cons _ _ after, hcurrent]
    rfl
  · have hsplice := flatten_splice before [] m fun o ho => ho.foldl_expandedAfter after
    rwa [List.append_nil, List.append_nil] at hsplice
  · exact fun x => isShorthand_of_mem_expandedAfter

/-- A curve behind two closes, the first of which ends a line that goes on from a rectangle. -/
theorem flatten_shorthand_resumed :
    let before : List (Segment ℚ) := [.rect 1 1 2 2, .lineTo ⟨5, 3⟩, .close, .close]
    let after : List (Segment ℚ) := [.lineTo ⟨0, 5⟩, .close, .curveToY ⟨2, 0⟩ ⟨7, 7⟩]
    let m : Transform ℚ := ⟨0, 2, -1, 0, 3, 4⟩
    currentPoint? before = some ⟨1, 1⟩ ∧
      flatten (before ++ .curveToV ⟨2, 0⟩ ⟨4, 1⟩ :: after) m =
        flatten (before ++ .curveTo ⟨1, 1⟩ ⟨2, 0⟩ ⟨4, 1⟩ :: after) m ∧
      (∃ s ∈ flatten (before ++ .curveToV ⟨2, 0⟩ ⟨4, 1⟩ :: after) m,
        s.points.head? = some (m.apply ⟨1, 1⟩) ∧ s.points.length = 22) := by
  intro before after m
  have hcurrent : currentPoint? before = some ⟨1, 1⟩ := rfl
  obtain ⟨-, -, hcurve, -⟩ := flatten_shorthand before after m
  refine ⟨hcurrent, hcurve _ _ _ hcurrent, ?_⟩
  rw [hcurve _ _ _ hcurrent]
  decide +kernel

end ContentStream
