import Mathlib
import ContentStream.Proofs.ClipCoverage
import ContentStream.Proofs.FillRules

set_option autoImplicit false

namespace ContentStream
variable {K : Type} [ExactField K] {r : Rect K} {p a b : Point K}

namespace Rect

theorem extend_admits (r : Rect K) (p : Point K) : (r.extend p).admits p = true := by
  simp [admits_iff, extend, Scalar.min_eq, Scalar.max_eq]

theorem admits_extend {q : Point K} (h : r.admits q = true) (p : Point K) :
    (r.extend p).admits q = true := by
  obtain ⟨⟨hleft, hright⟩, hbottom, htop⟩ := admits_iff.1 h
  simp only [admits_iff, extend, Scalar.min_eq, Scalar.max_eq]
  exact ⟨⟨min_le_of_left_le hleft, le_max_of_le_left hright⟩, min_le_of_left_le hbottom,
    le_max_of_le_left htop⟩

theorem foldl_extend_admits {q : Point K} (ps : List (Point K))
    (h : q ∈ ps ∨ r.admits q = true) : (ps.foldl extend r).admits q = true := by
  induction ps generalizing r with
  | nil => exact h.resolve_left List.not_mem_nil
  | cons p ps ih =>
    refine ih ?_
    rcases h with hq | hr
    · rcases List.mem_cons.1 hq with rfl | hq
      · exact .inr (extend_admits r q)
      · exact .inl hq
    · exact .inr (admits_extend hr p)

theorem bounding_admits {q : Point K} {ps : List (Point K)} (h : q ∈ ps) :
    (bounding ps).admits q = true :=
  foldl_extend_admits ps (.inl h)

theorem admits_intersect (r s : Rect K) (p : Point K) :
    (r.intersect s).admits p = true ↔ r.admits p = true ∧ s.admits p = true := by
  simp only [admits_iff, intersect, Scalar.max_eq, Scalar.min_eq, max_le_iff, le_min_iff]
  tauto

end Rect

section Curves
variable {u t lo hi x0 x1 x2 x3 : K}

/-- The weights of a curve's ends and control points are not negative and add up to one. -/
theorem cubic_le (hu : 0 ≤ u) (ht : 0 ≤ t) (hsum : u + t = 1) (h0 : x0 ≤ hi) (h1 : x1 ≤ hi)
    (h2 : x2 ≤ hi) (h3 : x3 ≤ hi) :
    u * u * u * x0 + 3 * u * u * t * x1 + 3 * u * t * t * x2 + t * t * t * x3 ≤ hi := by
  calc
    _ ≤ u * u * u * hi + 3 * u * u * t * hi + 3 * u * t * t * hi + t * t * t * hi := by gcongr
    _ = (u + t) * (u + t) * (u + t) * hi := by ring
    _ = hi := by rw [hsum, one_mul, one_mul, one_mul]

theorem le_cubic (hu : 0 ≤ u) (ht : 0 ≤ t) (hsum : u + t = 1) (h0 : lo ≤ x0) (h1 : lo ≤ x1)
    (h2 : lo ≤ x2) (h3 : lo ≤ x3) :
    lo ≤ u * u * u * x0 + 3 * u * u * t * x1 + 3 * u * t * t * x2 + t * t * t * x3 := by
  have hneg := cubic_le hu ht hsum (neg_le_neg h0) (neg_le_neg h1) (neg_le_neg h2)
    (neg_le_neg h3)
  linarith

theorem curvePoint_admits {p0 p1 p2 p3 : Point K} (ht : 0 ≤ t) (ht' : t ≤ 1)
    (h0 : r.admits p0 = true) (h1 : r.admits p1 = true) (h2 : r.admits p2 = true)
    (h3 : r.admits p3 = true) : r.admits (curvePoint p0 p1 p2 p3 t) = true := by
  rw [Rect.admits_iff] at h0 h1 h2 h3 ⊢
  obtain ⟨⟨hl0, hr0⟩, hb0, ht0⟩ := h0
  obtain ⟨⟨hl1, hr1⟩, hb1, ht1⟩ := h1
  obtain ⟨⟨hl2, hr2⟩, hb2, ht2⟩ := h2
  obtain ⟨⟨hl3, hr3⟩, hb3, ht3⟩ := h3
  have hu : 0 ≤ 1 - t := sub_nonneg.2 ht'
  have hsum : 1 - t + t = 1 := sub_add_cancel 1 t
  simp only [curvePoint, Nat.cast_ofNat]
  exact ⟨⟨le_cubic hu ht hsum hl0 hl1 hl2 hl3, cubic_le hu ht hsum hr0 hr1 hr2 hr3⟩,
    le_cubic hu ht hsum hb0 hb1 hb2 hb3, cubic_le hu ht hsum ht0 ht1 ht2 ht3⟩

theorem curvePoints_admits {p0 p1 p2 p3 q : Point K} (h0 : r.admits p0 = true)
    (h1 : r.admits p1 = true) (h2 : r.admits p2 = true) (h3 : r.admits p3 = true)
    (hq : q ∈ curvePoints p0 p1 p2 p3) : r.admits q = true := by
  obtain ⟨i, hi, rfl⟩ := List.mem_map.1 hq
  have hlines : (0 : K) < (curveLines : K) := Nat.cast_pos.2 (by decide)
  have hle : ((i + 1 : Nat) : K) ≤ (curveLines : K) := Nat.cast_le.2 (List.mem_range.1 hi)
  refine curvePoint_admits ?_ ?_ h0 h1 h2 h3
  · exact div_nonneg (Nat.cast_nonneg _) hlines.le
  · exact (div_le_one hlines).2 hle

end Curves

/-- All that a path has been flattened to so far lies within `r`, the points that it goes on from
included. -/
structure Outline.Within (r : Rect K) (o : Outline K) : Prop where
  complete : ∀ s ∈ o.complete.toList, ∀ q ∈ s.points, r.admits q = true
  points : ∀ q ∈ o.points.toList, r.admits q = true
  start : ∀ q, o.start = some q → r.admits q = true
  current : ∀ q, o.current = some q → r.admits q = true

namespace Outline.Within
variable {o : Outline K}

theorem empty (r : Rect K) : (Outline.empty : Outline K).Within r :=
  ⟨nofun, nofun, nofun, nofun⟩

theorem flush (h : o.Within r) (closed : Bool) : (o.flush closed).Within r := by
  unfold Outline.flush
  split
  · exact h
  · refine ⟨?_, nofun, h.start, h.current⟩
    intro s hs
    rw [Array.toList_push] at hs
    rcases List.mem_append.1 hs with hs | hs
    · exact h.complete s hs
    · obtain rfl := List.mem_singleton.1 hs
      exact h.points

theorem current_getD (h : o.Within r) (hp : r.admits p = true) :
    r.admits (o.current.getD p) = true := by
  cases hcurrent : o.current with
  | none => exact hp
  | some q => exact h.current q hcurrent

theorem ensureOpen (h : o.Within r) (hp : r.admits p = true) : (o.ensureOpen p).Within r := by
  have hstart := h.current_getD hp
  unfold Outline.ensureOpen
  split
  · refine ⟨h.complete, ?_, ?_, h.current⟩
    · intro q hq
      obtain rfl := List.mem_singleton.1 hq
      exact hstart
    · intro q hq
      obtain rfl := Option.some.inj hq
      exact hstart
  · exact h

theorem append (h : o.Within r) {ps : List (Point K)} (hps : ∀ q ∈ ps, r.admits q = true)
    {points : Array (Point K)} (hpoints : points.toList = o.points.toList ++ ps)
    (hp : r.admits p = true) :
    ({ o with points := points, current := some p } : Outline K).Within r where
  complete := h.complete
  points q hq := by
    rw [hpoints] at hq
    exact (List.mem_append.1 hq).elim (h.points q) (hps q)
  start := h.start
  current q hq := by
    obtain rfl := Option.some.inj hq
    exact hp

theorem lineTo (h : o.Within r) (hp : r.admits p = true) : (o.lineTo p).Within r := by
  have hps : ∀ q ∈ [p], r.admits q = true := by
    intro q hq
    obtain rfl := List.mem_singleton.1 hq
    exact hp
  exact (h.ensureOpen hp).append hps Array.toList_push hp

theorem curveTo (h : o.Within r) {c1 : Option (Point K)} {c2 : Point K}
    (h1 : ∀ q, c1 = some q → r.admits q = true) (h2 : r.admits c2 = true)
    (hp : r.admits p = true) : (o.curveTo c1 c2 p).Within r := by
  have hfrom := h.current_getD hp
  have hcontrol : r.admits (c1.getD (o.current.getD p)) = true := by
    cases c1 with
    | none => exact hfrom
    | some q => exact h1 q rfl
  refine (h.ensureOpen hp).append ?_ Array.toList_appendList hp
  intro q hq
  exact curvePoints_admits hfrom hcontrol h2 hp hq

theorem add (h : o.Within r) {m : Transform K} {x : Segment K}
    (hx : ∀ q ∈ x.points, r.admits (m.apply q) = true) : (o.add m x).Within r := by
  cases x with
  | moveTo p =>
    have hp : r.admits (m.apply p) = true := hx p (by simp [Segment.points])
    have hpoint : ∀ q, q = m.apply p → r.admits q = true := fun _ hq => hq ▸ hp
    refine ⟨(h.flush false).complete, ?_, ?_, ?_⟩
    · exact fun q hq => hpoint q (List.mem_singleton.1 hq)
    · exact fun q hq => hpoint q (Option.some.inj hq).symm
    · exact fun q hq => hpoint q (Option.some.inj hq).symm
  | lineTo p => exact h.lineTo (hx p (by simp [Segment.points]))
  | curveTo c1 c2 p =>
    simp only [Segment.points, List.forall_mem_cons] at hx
    obtain ⟨h1, h2, hp, -⟩ := hx
    exact h.curveTo (fun q hq => Option.some.inj hq ▸ h1) h2 hp
  | curveToV c2 p =>
    simp only [Segment.points, List.forall_mem_cons] at hx
    obtain ⟨h2, hp, -⟩ := hx
    exact h.curveTo (fun _ hq => absurd hq.symm (Option.some_ne_none _)) h2 hp
  | curveToY c1 p =>
    simp only [Segment.points, List.forall_mem_cons] at hx
    obtain ⟨h1, hp, -⟩ := hx
    exact h.curveTo (fun q hq => Option.some.inj hq ▸ h1) hp hp
  | rect x y w height =>
    have hflush := h.flush false
    have hcorners : ∀ q ∈ (Segment.rect x y w height).points.map m.apply, r.admits q = true :=
      List.forall_mem_map.2 hx
    refine ⟨?_, hflush.points, ?_, ?_⟩
    · intro s hs
      rcases List.mem_append.1 (Array.toList_push ▸ hs) with hs | hs
      · exact hflush.complete s hs
      · obtain rfl := List.mem_singleton.1 hs
        exact hcorners
    · exact fun q hq => hcorners q (List.mem_of_head? hq)
    · exact fun q hq => hcorners q (List.mem_of_head? hq)
  | close =>
    have hflush := h.flush true
    exact ⟨hflush.complete, hflush.points, hflush.start, hflush.start⟩

end Outline.Within

theorem flatten_within {segments : List (Segment K)} {m : Transform K}
    (h : ∀ x ∈ segments, ∀ q ∈ x.points, r.admits (m.apply q) = true) :
    ∀ s ∈ flatten segments m, ∀ q ∈ s.points, r.admits q = true := by
  have hrun : ∀ o : Outline K, o.Within r → (segments.foldl (Outline.add m) o).Within r := by
    induction segments with
    | nil => exact fun _ ho => ho
    | cons x segments ih =>
      intro o ho
      exact ih (fun y hy => h y (List.mem_cons_of_mem _ hy)) _ (ho.add (h x List.mem_cons_self))
  exact ((hrun .empty (.empty r)).flush false).complete

instance : LawfulBEq (Point K) where
  eq_of_beq {p q} h := by
    have hboth : (p.x == q.x && p.y == q.y) = true := h
    rw [Bool.and_eq_true, beq_iff_eq, beq_iff_eq] at hboth
    cases p
    exact Point.mk.injEq .. |>.mpr hboth
  rfl {p} := by
    change (p.x == p.x && p.y == p.y) = true
    simp

namespace Subpath

omit [ExactField K] in
theorem sum_zip_tail (f : Point K → Int) (first : Point K) (ps : List (Point K)) :
    (((first :: ps).zip ps).map fun e => f e.2 - f e.1).sum =
      f ((first :: ps).getLast (List.cons_ne_nil _ _)) - f first := by
  induction ps generalizing first with
  | nil => exact (sub_self (f first)).symm
  | cons second ps ih =>
    rw [List.zip_cons_cons, List.map_cons, List.sum_cons, ih, List.getLast_cons_cons]
    ring

/-- A closed outline comes back to where it began, so what is measured along it does not change. -/
theorem sum_edges_eq_zero (f : Point K → Int) (s : Subpath K) :
    ((s.edges true).map fun e => f e.2 - f e.1).sum = 0 := by
  obtain ⟨points, closed⟩ := s
  cases points with
  | nil => rfl
  | cons first ps =>
    cases ps with
    | nil => rfl
    | cons second ps =>
      have hchain := sum_zip_tail f first (second :: ps)
      rw [List.getLast_cons_cons] at hchain
      simp only [edges, closingEdge, List.tail_cons, if_true, List.map_append, List.sum_append,
        hchain]
      split
      · rename_i hclosed
        rw [← eq_of_beq hclosed]
        simp
      · simp

theorem mem_points_of_mem_closingEdge {s : Subpath K} (h : (a, b) ∈ s.closingEdge) :
    a ∈ s.points ∧ b ∈ s.points := by
  obtain ⟨points, closed⟩ := s
  rcases points with _ | ⟨first, _ | ⟨second, rest⟩⟩
  · exact absurd h List.not_mem_nil
  · exact absurd h List.not_mem_nil
  · simp only [closingEdge] at h
    split at h
    · exact absurd h List.not_mem_nil
    · obtain ⟨rfl, rfl⟩ := Prod.mk.inj (List.mem_singleton.1 h)
      exact ⟨List.mem_cons_of_mem _ (List.getLast_mem _), List.mem_cons_self⟩

theorem mem_points_of_mem_edges {s : Subpath K} (h : (a, b) ∈ s.edges true) :
    a ∈ s.points ∧ b ∈ s.points := by
  rcases List.mem_append.1 h with hchain | hclosing
  · obtain ⟨ha, hb⟩ := List.of_mem_zip hchain
    exact ⟨ha, List.mem_of_mem_tail hb⟩
  · exact mem_points_of_mem_closingEdge hclosing

end Subpath

section Winding

theorem side_eq (a b p : Point K) :
    side a b p = (b.x - p.x) * (p.y - a.y) + (a.x - p.x) * (b.y - p.y) := by
  unfold side
  ring

theorem heights_of_windingStep (h : windingStep p (a, b) ≠ 0) :
    (a.y ≤ p.y ∧ p.y < b.y) ∨ (b.y ≤ p.y ∧ p.y < a.y) := by
  rcases passes_or_stays a b p with hrises | hfalls | hstays
  · exact .inl hrises
  · exact .inr hfalls
  · exact absurd (windingStep_of_staying hstays) h

/-- No edge winds around a point to the right of both of its ends. -/
theorem windingStep_of_right (ha : a.x ≤ p.x) (hb : b.x ≤ p.x) : windingStep p (a, b) = 0 := by
  rcases passes_or_stays a b p with ⟨hya, hyb⟩ | ⟨hyb, hya⟩ | hstays
  · have hside : side a b p ≤ 0 := by
      rw [side_eq]
      nlinarith
    rw [windingStep_of_rising hya hyb, if_neg hside.not_gt]
  · have hside : 0 ≤ side a b p := by
      rw [side_eq]
      nlinarith
    rw [windingStep_of_falling hyb hya, if_neg hside.not_gt]
  · exact windingStep_of_staying hstays

theorem windingStep_of_left (ha : p.x < a.x) (hb : p.x < b.x) :
    windingStep p (a, b) = (if p.y < b.y then 1 else 0) - if p.y < a.y then 1 else 0 := by
  rcases passes_or_stays a b p with ⟨hya, hyb⟩ | ⟨hyb, hya⟩ | hstays
  · have hside : 0 < side a b p := by
      rw [side_eq]
      nlinarith
    rw [windingStep_of_rising hya hyb, if_pos hside, if_pos hyb, if_neg hya.not_gt, sub_zero]
  · have hside : side a b p < 0 := by
      rw [side_eq]
      nlinarith
    rw [windingStep_of_falling hyb hya, if_pos hside, if_neg hyb.not_gt, if_pos hya, zero_sub]
  · simp only [windingStep_of_staying hstays, hstays, sub_self]

end Winding

theorem windingNumber_of_left {subpaths : List (Subpath K)}
    (h : ∀ s ∈ subpaths, ∀ q ∈ s.points, p.x < q.x) :
    windingNumber (fillEdges subpaths) p = 0 := by
  rw [windingNumber_eq_sum]
  induction subpaths with
  | nil => rfl
  | cons s subpaths ih =>
    have hs : ∀ e ∈ s.edges true, windingStep p e =
        (if p.y < e.2.y then 1 else 0) - if p.y < e.1.y then 1 else 0 := by
      intro e he
      obtain ⟨ha, hb⟩ := Subpath.mem_points_of_mem_edges he
      exact windingStep_of_left (h s List.mem_cons_self _ ha) (h s List.mem_cons_self _ hb)
    have hrest := ih fun s' hs' => h s' (List.mem_cons_of_mem _ hs')
    have hclosed := s.sum_edges_eq_zero fun q => if p.y < q.y then 1 else 0
    rw [← List.map_congr_left hs] at hclosed
    rw [fillEdges, List.flatMap_cons, List.map_append, List.sum_append, hclosed, zero_add]
    exact hrest

theorem admits_of_windingNumber {subpaths : List (Subpath K)}
    (hr : ∀ s ∈ subpaths, ∀ q ∈ s.points, r.admits q = true)
    (h : windingNumber (fillEdges subpaths) p ≠ 0) : r.admits p = true := by
  have hleft : r.x0 ≤ p.x := by
    by_contra hp
    refine h (windingNumber_of_left fun s hs q hq => ?_)
    exact (not_le.1 hp).trans_le (Rect.admits_iff.1 (hr s hs q hq)).1.1
  obtain ⟨⟨a, b⟩, hedge, hstep⟩ : ∃ e ∈ fillEdges subpaths, windingStep p e ≠ 0 := by
    by_contra hnone
    push Not at hnone
    rw [windingNumber_eq_sum] at h
    exact h (List.sum_eq_zero (List.forall_mem_map.2 hnone))
  obtain ⟨s, hs, hmem⟩ := List.mem_flatMap.1 hedge
  obtain ⟨ha, hb⟩ := Subpath.mem_points_of_mem_edges hmem
  obtain ⟨⟨-, hax⟩, hay, hay'⟩ := Rect.admits_iff.1 (hr s hs a ha)
  obtain ⟨⟨-, hbx⟩, hby, hby'⟩ := Rect.admits_iff.1 (hr s hs b hb)
  have hright : p.x ≤ r.x1 := by
    by_contra hp
    have hp' := (not_le.1 hp).le
    exact hstep (windingStep_of_right (hax.trans hp') (hbx.trans hp'))
  rcases heights_of_windingStep hstep with ⟨hlow, hhigh⟩ | ⟨hlow, hhigh⟩
  · exact Rect.admits_iff.2 ⟨⟨hleft, hright⟩, hay.trans hlow, hhigh.le.trans hby'⟩
  · exact Rect.admits_iff.2 ⟨⟨hleft, hright⟩, hby.trans hlow, hhigh.le.trans hay'⟩

theorem admits_of_fillContains {subpaths : List (Subpath K)} {rule : FillRule}
    (hr : ∀ s ∈ subpaths, ∀ q ∈ s.points, r.admits q = true)
    (h : fillContains subpaths rule p = true) : r.admits p = true := by
  refine admits_of_windingNumber hr fun hzero => ?_
  cases rule with
  | nonZero =>
    simp only [fillContains, hzero] at h
    exact absurd h (by decide)
  | evenOdd =>
    have hodd := (oddCrossings_iff_odd (fillEdges subpaths) p).1 h
    rw [hzero] at hodd
    exact absurd hodd (by decide)

/-- A path is flattened to points within its bounds, edges included, and under either rule it fills
points within its bounds only. So no filled point is lost when a clip is cut down to the bounds. -/
theorem pathBounds_sound (segments : List (Segment K)) (m : Transform K) :
    (∀ s ∈ flatten segments m, ∀ q ∈ s.points, (pathBounds segments m).admits q = true) ∧
    ∀ rule p, fillContains (flatten segments m) rule p = true →
      (pathBounds segments m).admits p = true ∧
      ∀ clip : Rect K, (clip.intersect (pathBounds segments m)).admits p = clip.admits p := by
  have hnamed : ∀ x ∈ segments, ∀ q ∈ x.points,
      (pathBounds segments m).admits (m.apply q) = true := by
    intro x hx q hq
    exact Rect.bounding_admits (List.mem_map_of_mem (List.mem_flatMap_of_mem hx hq))
  have hflat := flatten_within hnamed
  refine ⟨hflat, ?_⟩
  intro rule p hfilled
  have hp := admits_of_fillContains hflat hfilled
  refine ⟨hp, fun clip => ?_⟩
  rw [Bool.eq_iff_iff, Rect.admits_intersect]
  exact and_iff_left hp

/-- A curve on a page turned by a right angle, and a point under it. -/
theorem pathBounds_sound_turnedCurve :
    let segments : List (Segment ℚ) := [.moveTo ⟨0, 0⟩, .curveToV ⟨4, 4⟩ ⟨4, 0⟩]
    let m : Transform ℚ := ⟨0, 1, -1, 0, 5, 0⟩
    let clip : Rect ℚ := ⟨0, 0, 9 / 2, 9⟩
    (∃ s ∈ flatten segments m, ⟨5, 0⟩ ∈ s.points ∧
      (pathBounds segments m).admits ⟨5, 0⟩ = true) ∧
    fillContains (flatten segments m) .evenOdd ⟨17 / 4, 3⟩ = true ∧
    (pathBounds segments m).admits ⟨17 / 4, 3⟩ = true ∧
    (clip.intersect (pathBounds segments m)).admits ⟨17 / 4, 3⟩ = clip.admits ⟨17 / 4, 3⟩ := by
  intro segments m clip
  obtain ⟨hflat, hfilled⟩ := pathBounds_sound segments m
  have hstart : ∃ s ∈ flatten segments m, (⟨5, 0⟩ : Point ℚ) ∈ s.points := by decide +kernel
  have hunder : fillContains (flatten segments m) .evenOdd ⟨17 / 4, 3⟩ = true := by
    decide +kernel
  obtain ⟨s, hs, hq⟩ := hstart
  obtain ⟨hbounds, hclip⟩ := hfilled .evenOdd _ hunder
  exact ⟨⟨s, hs, hq, hflat s hs _ hq⟩, hunder, hbounds, hclip clip⟩

end ContentStream
