import Mathlib
import ContentStream.Path.Coverage
import ContentStream.Proofs.ExactArithmetic

set_option autoImplicit false

namespace ContentStream

theorem windingNumber_eq_sum {K : Type} [Scalar K] (edges : List (Point K × Point K))
    (p : Point K) : windingNumber edges p = (edges.map (windingStep p)).sum := by
  rw [windingNumber, List.sum_eq_foldl, List.foldl_map]

variable {K : Type} [ExactField K] {p a b : Point K}

theorem lt_cut_iff_of_rising (h : a.y < b.y) :
    p.x < (b.x - a.x) * (p.y - a.y) / (b.y - a.y) + a.x ↔ 0 < side a b p := by
  rw [← sub_lt_iff_lt_add, lt_div_iff₀ (sub_pos.2 h), ← sub_pos]
  rfl

theorem lt_cut_iff_of_falling (h : b.y < a.y) :
    p.x < (b.x - a.x) * (p.y - a.y) / (b.y - a.y) + a.x ↔ side a b p < 0 := by
  rw [← sub_lt_iff_lt_add, lt_div_iff_of_neg (sub_neg.2 h), ← sub_neg]
  rfl

/-- An edge passes the height of a point upward or downward, its lower end included and its upper
end not, or it stays on one side of that height. -/
theorem passes_or_stays (a b p : Point K) :
    (a.y ≤ p.y ∧ p.y < b.y) ∨ (b.y ≤ p.y ∧ p.y < a.y) ∨ (p.y < a.y ↔ p.y < b.y) := by
  rcases lt_or_ge p.y a.y with ha | ha
  · rcases lt_or_ge p.y b.y with hb | hb
    · exact .inr (.inr (iff_of_true ha hb))
    · exact .inr (.inl ⟨hb, ha⟩)
  · rcases lt_or_ge p.y b.y with hb | hb
    · exact .inl ⟨ha, hb⟩
    · exact .inr (.inr (iff_of_false ha.not_gt hb.not_gt))

theorem windingStep_of_rising (ha : a.y ≤ p.y) (hb : p.y < b.y) :
    windingStep p (a, b) = if 0 < side a b p then 1 else 0 := by
  simp only [windingStep, if_pos ha, if_pos hb]

theorem windingStep_of_falling (hb : b.y ≤ p.y) (ha : p.y < a.y) :
    windingStep p (a, b) = if side a b p < 0 then -1 else 0 := by
  simp only [windingStep, if_neg ha.not_ge, if_pos hb]

theorem windingStep_of_staying (h : p.y < a.y ↔ p.y < b.y) : windingStep p (a, b) = 0 := by
  by_cases hb : p.y < b.y
  · simp [windingStep, (h.2 hb).not_ge, hb.not_ge]
  · simp [windingStep, not_lt.1 (mt h.1 hb), hb]

theorem odd_ite_iff (q : Prop) [Decidable q] {n : Int} (h : Odd n) :
    Odd (if q then n else 0) ↔ q := by
  split <;> simp_all

/-- Both rules meet the same edges: vertices count for the edges above them, and level edges for
none. -/
theorem crosses_iff_odd (p : Point K) (e : Point K × Point K) :
    crosses p e = true ↔ Odd (windingStep p e) := by
  obtain ⟨a, b⟩ := e
  rcases passes_or_stays a b p with ⟨ha, hb⟩ | ⟨hb, ha⟩ | hstays
  · rw [windingStep_of_rising ha hb, odd_ite_iff _ odd_one,
      ← lt_cut_iff_of_rising (ha.trans_lt hb)]
    simp [crosses, ha.not_gt, hb]
  · rw [windingStep_of_falling hb ha, odd_ite_iff _ odd_neg_one,
      ← lt_cut_iff_of_falling (hb.trans_lt ha)]
    simp [crosses, ha, hb.not_gt]
  · rw [windingStep_of_staying hstays]
    simp [crosses, hstays]

theorem windingStep_natAbs_le (p : Point K) (e : Point K × Point K) :
    (windingStep p e).natAbs ≤ 1 := by
  unfold windingStep
  dsimp only
  split_ifs <;> decide

theorem windingNumber_natAbs_le (edges : List (Point K × Point K)) (p : Point K) :
    (windingNumber edges p).natAbs ≤ edges.length := by
  rw [windingNumber_eq_sum]
  induction edges with
  | nil => exact le_rfl
  | cons e edges ih =>
    rw [List.map_cons, List.sum_cons, List.length_cons]
    have hstep := windingStep_natAbs_le p e
    omega

theorem foldl_crosses_iff_odd (edges : List (Point K × Point K)) (p : Point K) {odd : Bool}
    {n : Int} (h : odd = true ↔ Odd n) :
    edges.foldl (fun odd edge => odd != crosses p edge) odd = true ↔
      Odd (edges.foldl (fun n edge => n + windingStep p edge) n) := by
  induction edges generalizing odd n with
  | nil => exact h
  | cons e edges ih =>
    have hstep : (odd != crosses p e) = true ↔ Odd (n + windingStep p e) := by
      rw [Int.odd_add, ← Int.not_odd_iff_even, ← h, ← crosses_iff_odd]
      cases odd <;> cases crosses p e <;> decide
    exact ih hstep

theorem oddCrossings_iff_odd (edges : List (Point K × Point K)) (p : Point K) :
    oddCrossings edges p = true ↔ Odd (windingNumber edges p) :=
  foldl_crosses_iff_odd edges p (by decide)

/-- The even-odd rule takes the points whose winding number is odd, so all of them are inside under
the other rule. With fewer than `2 ^ 31` edges no count on the way leaves the range of signed 32-bit
words. -/
theorem fillContains_evenOdd_iff (subpaths : List (Subpath K)) (p : Point K) :
    (fillContains subpaths .evenOdd p = true ↔ Odd (windingNumber (fillEdges subpaths) p)) ∧
    (fillContains subpaths .evenOdd p = true → fillContains subpaths .nonZero p = true) ∧
    ((fillEdges subpaths).length < 2 ^ 31 → ∀ edges, edges <+: fillEdges subpaths →
      (windingNumber edges p).natAbs < 2 ^ 31) := by
  have hodd : fillContains subpaths .evenOdd p = true ↔
      Odd (windingNumber (fillEdges subpaths) p) := oddCrossings_iff_odd _ p
  refine ⟨hodd, ?_, ?_⟩
  · intro hinside
    have hne : windingNumber (fillEdges subpaths) p ≠ 0 := by
      intro hzero
      rw [hodd, hzero] at hinside
      exact absurd hinside (by decide)
    simpa [fillContains] using hne
  · intro hlength edges hfirst
    exact (windingNumber_natAbs_le edges p).trans_lt (hfirst.length_le.trans_lt hlength)

/-- Two squares drawn the same way round, the smaller one in the middle of the other. -/
theorem fillContains_evenOdd_iff_nestedSquares :
    let squares : List (Subpath ℚ) := flatten [.rect 0 0 4 4, .rect 1 1 2 2] .identity
    windingNumber (fillEdges squares) ⟨2, 2⟩ = 2 ∧
    fillContains squares .evenOdd ⟨2, 2⟩ ≠ true ∧
    fillContains squares .nonZero ⟨1 / 2, 2⟩ = true ∧
    (windingNumber (fillEdges squares) ⟨2, 2⟩).natAbs < 2 ^ 31 := by
  intro squares
  have htwice : windingNumber (fillEdges squares) ⟨2, 2⟩ = 2 := by decide +kernel
  refine ⟨htwice, ?_, ?_, ?_⟩
  · rw [Ne, (fillContains_evenOdd_iff squares ⟨2, 2⟩).1, htwice]
    decide
  · have hinside : fillContains squares .evenOdd ⟨1 / 2, 2⟩ = true := by decide +kernel
    exact (fillContains_evenOdd_iff squares _).2.1 hinside
  · have hlength : (fillEdges squares).length < 2 ^ 31 := by
      have hedges : (fillEdges squares).length = 8 := by decide +kernel
      rw [hedges]
      norm_num
    exact (fillContains_evenOdd_iff squares _).2.2 hlength _ List.prefix_rfl

end ContentStream
