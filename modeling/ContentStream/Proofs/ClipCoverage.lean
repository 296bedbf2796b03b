import Mathlib
import ContentStream.Proofs.MaskSampling
import ContentStream.Proofs.MaskedElements

set_option autoImplicit false

namespace ContentStream
open Scalar
variable {K : Type} [ExactField K]

theorem ofByte_full : (ofByte 255 : K) = 1 := by
  change ((255 : Nat) : K) / ((255 : Nat) : K) = 1
  exact div_self (by norm_num)

theorem ofByte_lt_one_iff {b : UInt8} : (ofByte b : K) < 1 ↔ b ≠ 255 := by
  constructor
  · rintro h rfl
    exact absurd ofByte_full h.ne
  · intro hb
    have hlt : b.toNat < 255 :=
      lt_of_le_of_ne (Nat.le_of_lt_succ b.toNat_lt) fun h => hb (UInt8.toNat_inj.1 h)
    have hlt' : (b.toNat : K) < ((255 : Nat) : K) := Nat.cast_lt.2 hlt
    exact (div_lt_one (by norm_num)).2 hlt'

namespace Rect

theorem admits_iff {r : Rect K} {p : Point K} :
    r.admits p = true ↔ (r.x0 ≤ p.x ∧ p.x ≤ r.x1) ∧ r.y0 ≤ p.y ∧ p.y ≤ r.y1 := by
  simp [admits, and_assoc]

theorem admits_of_intersect {r s : Rect K} {p : Point K}
    (h : (r.intersect s).admits p = true) : r.admits p = true := by
  obtain ⟨⟨hleft, hright⟩, hbottom, htop⟩ := admits_iff.1 h
  simp only [intersect, Scalar.max_eq, Scalar.min_eq] at hleft hright hbottom htop
  exact admits_iff.2 ⟨⟨(le_max_left _ _).trans hleft, hright.trans (min_le_left _ _)⟩,
    (le_max_left _ _).trans hbottom, htop.trans (min_le_left _ _)⟩

theorem isDrawable_iff {r : Rect K} : r.isDrawable = true ↔ r.x0 < r.x1 ∧ r.y0 < r.y1 := by
  simp [isDrawable, isFinite, Scalar.isFinite]

theorem eq_of_admits {r : Rect K} {p : Point K} (h : r.isDrawable = false)
    (hp : r.admits p = true) : r.x0 = r.x1 ∨ r.y0 = r.y1 := by
  obtain ⟨⟨hleft, hright⟩, hbottom, htop⟩ := admits_iff.1 hp
  rcases (hleft.trans hright).eq_or_lt with hx | hx
  · exact .inl hx
  rcases (hbottom.trans htop).eq_or_lt with hy | hy
  · exact .inr hy
  · exact absurd (isDrawable_iff.2 ⟨hx, hy⟩) (by simp [h])

theorem Encloses.admits {r : Rect K} {p : Point K} (h : r.Encloses p) : r.admits p = true :=
  admits_iff.2 ⟨⟨h.left.le, h.right.le⟩, h.bottom.le, h.top.le⟩

end Rect

theorem Grid.size?_isSome {width height : K} {budget : Nat} (hwidth : 0 < width)
    (hheight : 0 < height) (hbudget : 0 < budget) : (size? width height budget).isSome := by
  have hzero : (budget == 0) = false := by simpa using hbudget.ne'
  have hflat : (decide (width ≤ 0) || decide (height ≤ 0)) = false := by
    simp [hwidth.not_ge, hheight.not_ge]
  unfold size?
  simp only [hzero, Scalar.isFinite, Bool.not_true, Bool.or_self, hflat, Bool.false_eq_true,
    if_false]
  split <;> rfl

namespace Mask

/-- The byte of a point under a mask. Without one every point is opaque. -/
def byteAt (m : Option (Mask K)) (p : Point K) : UInt8 :=
  match m with
  | none => 255
  | some m => m.sample p

theorem get_ofRegion {width height col row : Nat} (hcol : col < width) (hrow : row < height)
    (bbox : Rect K) (inside : Point K → Bool) (previous : Option (Mask K)) :
    let m := ofRegion width height bbox inside previous
    m.get col row =
      if inside (m.pixelCenter col row) then byteAt previous (m.pixelCenter col row) else 0 := by
  intro m
  unfold get
  rw [Array.getD_eq_getD_getElem?]
  change (((Grid.tabulate width height _).toArray[row * width + col]?).getD 0) = _
  rw [List.getElem?_toArray, Grid.getElem?_tabulate _ hcol hrow]
  rfl

/-- Read back at the centre of a pixel, a region lets nothing through or what the mask before it
does. -/
theorem sample_ofRegion_center {width height col row : Nat} (hwidth : width ≤ UInt32.size)
    (hheight : height ≤ UInt32.size) (hcol : col < width) (hrow : row < height) (bbox : Rect K)
    (inside : Point K → Bool) (previous : Option (Mask K)) :
    let m := ofRegion width height bbox inside previous
    let p := m.pixelCenter col row
    m.sample p = 0 ∨ m.sample p = byteAt previous p := by
  intro m p
  cases hinverse : m.matrix.inverse? with
  | none => exact .inl (sample_of_no_inverse hinverse p)
  | some i =>
    have hsample : m.sample p = if inside p then byteAt previous p else 0 :=
      (sample_center hinverse hwidth hheight hcol hrow).trans (get_ofRegion hcol hrow ..)
    cases hinside : inside p with
    | false => exact .inl (hsample.trans (by rw [hinside]; rfl))
    | true => exact .inr (hsample.trans (by rw [hinside]; rfl))

theorem ofClip?_eq_none_iff {segments : List (Segment K)} {ctm : Transform K} {rule : FillRule}
    {bbox : Rect K} {previous : Option (Mask K)} {budget : Nat} (hbudget : 0 < budget) :
    ofClip? segments ctm rule bbox previous budget = none ↔ bbox.isDrawable = false := by
  unfold ofClip?
  split
  · rename_i hdrawable
    obtain ⟨hx, hy⟩ := Rect.isDrawable_iff.1 hdrawable
    have hsize := Grid.size?_isSome (sub_pos.2 hx) (sub_pos.2 hy) hbudget
    simp [hdrawable, Option.isSome_iff_ne_none.1 hsize]
  · rename_i hflat
    simpa using hflat

end Mask

namespace GraphicsState

theorem clipCoverage_of_admits {g : GraphicsState K} {p : Point K}
    (h : g.clipBBox.admits p = true) : g.clipCoverage p = ofByte (Mask.byteAt g.clipMask p) := by
  unfold clipCoverage Mask.byteAt
  rw [if_pos h]
  cases g.clipMask with
  | none => exact ofByte_full.symm
  | some m => rfl

theorem clipCoverage_of_not_admits {g : GraphicsState K} {p : Point K}
    (h : ¬ g.clipBBox.admits p = true) : g.clipCoverage p = 0 := if_neg h

end GraphicsState

namespace Interpreter
open GraphicsState

def clipped (options : Options K) (segments : List (Segment K)) (rule : FillRule)
    (g : GraphicsState K) : GraphicsState K :=
  let bbox := g.clipBBox.intersect (pathBounds segments g.ctm)
  { g with
    clipMask := Mask.ofClip? segments g.ctm rule bbox g.clipMask options.clipBudget
    clipBBox := bbox }

theorem clipState_cases {options : Options K} (hbudget : 0 < options.clipBudget)
    (segments : List (Segment K)) (rule : FillRule) (g : GraphicsState K) :
    clipState options segments rule g = g ∨
      clipState options segments rule g = clipped options segments rule g := by
  unfold clipState
  dsimp only
  split
  · exact .inl rfl
  · exact .inr rfl

theorem clipPath_cases {options : Options K} (hbudget : 0 < options.clipBudget) (rule : FillRule)
    (s : Interpreter K) : (s.clipPath options rule).state = s.state ∨
      (s.clipPath options rule).state = clipped options s.path.toList rule s.state := by
  unfold clipPath
  split
  · exact .inl rfl
  · exact clipState_cases hbudget s.path.toList rule s.state

section Clipped
variable {options : Options K} {segments : List (Segment K)} {rule : FillRule}
  {g : GraphicsState K}

theorem clipped_center_le (hword : options.clipBudget < UInt32.size) {m : Mask K}
    (hm : (clipped options segments rule g).clipMask = some m) {col row : Nat}
    (hcol : col < m.width) (hrow : row < m.height) :
    (clipped options segments rule g).clipCoverage (m.pixelCenter col row) ≤
      g.clipCoverage (m.pixelCenter col row) := by
  have hmask := hm
  change Mask.ofClip? _ _ _ _ _ _ = some m at hmask
  unfold Mask.ofClip? at hmask
  split at hmask
  · rename_i hdrawable
    obtain ⟨⟨width, height⟩, hsize, rfl⟩ := Option.map_eq_some_iff.1 hmask
    have hfits := Grid.fits_of_size? hsize
    have hwidth : width ≤ UInt32.size :=
      (le_max_left width height).trans (hfits.longer.trans_le hword.le)
    have hheight : height ≤ UInt32.size :=
      (le_max_right width height).trans (hfits.longer.trans_le hword.le)
    obtain ⟨hx, hy⟩ := Rect.isDrawable_iff.1 hdrawable
    have hadmits := (Grid.encloses_center hx hy hcol hrow).admits
    have hbefore := clipCoverage_of_admits (Rect.admits_of_intersect hadmits)
    have hafter := clipCoverage_of_admits (g := clipped options segments rule g) hadmits
    rw [hm] at hafter
    refine hafter.le.trans (le_of_le_of_eq ?_ hbefore.symm)
    rcases Mask.sample_ofRegion_center hwidth hheight hcol hrow _ _ g.clipMask with hzero | hsame
    · refine (congrArg ofByte hzero).le.trans ?_
      rw [LawfulScalar.ofByte_zero]
      exact ofByte_nonneg _
    · exact (congrArg ofByte hsame).le
  · exact absurd hmask (by simp)

/-- Without a mask the bounds alone decide, so what the mask before has hidden in them shows. -/
theorem lt_clipped_iff (hm : (clipped options segments rule g).clipMask = none) (p : Point K) :
    g.clipCoverage p < (clipped options segments rule g).clipCoverage p ↔
      (clipped options segments rule g).clipBBox.admits p = true ∧
        ∃ m, g.clipMask = some m ∧ m.sample p ≠ 255 := by
  by_cases hadmits : (clipped options segments rule g).clipBBox.admits p = true
  · have hafter := clipCoverage_of_admits hadmits
    rw [hm, Mask.byteAt, ofByte_full] at hafter
    rw [hafter, clipCoverage_of_admits (Rect.admits_of_intersect hadmits), ofByte_lt_one_iff]
    cases hmask : g.clipMask with
    | none => simp [Mask.byteAt]
    | some m => simp [Mask.byteAt, hadmits]
  · rw [clipCoverage_of_not_admits hadmits]
    constructor
    · intro hlt
      exact absurd hlt (g.inUnit_clipCoverage p).1.not_gt
    · rintro ⟨h, -⟩
      exact absurd h hadmits

end Clipped

theorem execute_clip (options : Options K) {name : String} (hname : name = "W" ∨ name = "W*")
    (s : Interpreter K) : ∃ rule,
      (execute options [.operator name] s).state = s.cleared.clipPath options rule := by
  rw [execute_singleton]
  rcases hname with rfl | rfl
  · refine ⟨.nonZero, ?_⟩
    have hop : Operator.ofName? "W" = some .clip := rfl
    rw [step_apply (execute options) options hop (by decide) (by decide)]
    rfl
  · refine ⟨.evenOdd, ?_⟩
    have hop : Operator.ofName? "W*" = some .clipEvenOdd := rfl
    rw [step_apply (execute options) options hop (by decide) (by decide)]
    rfl

/-- A clip that leaves a mask uncovers the centre of none of its pixels. A clip that leaves none
uncovers the points that its bounds admit and that the mask before has not let through in full.
There are such points only where the bounds have shrunk to a line. -/
theorem execute_clip_uncovers_iff (options : Options K) (hbudget : 0 < options.clipBudget)
    (hword : options.clipBudget < UInt32.size) {name : String}
    (hname : name = "W" ∨ name = "W*") (s : Interpreter K) :
    let bbox := s.state.clipBBox.intersect (pathBounds s.path.toList s.state.ctm)
    let after := (execute options [.operator name] s).state.state
    (∀ m, after.clipMask = some m → ∀ col < m.width, ∀ row < m.height,
      after.clipCoverage (m.pixelCenter col row) ≤ s.state.clipCoverage (m.pixelCenter col row)) ∧
    (after.clipMask = none → ∀ p, s.state.clipCoverage p < after.clipCoverage p ↔
      bbox.admits p = true ∧ ∃ m, s.state.clipMask = some m ∧ m.sample p ≠ 255) ∧
    (after.clipMask = none → bbox.x0 ≠ bbox.x1 → bbox.y0 ≠ bbox.y1 →
      ∀ p, after.clipCoverage p ≤ s.state.clipCoverage p) := by
  obtain ⟨rule, hexecute⟩ := execute_clip options hname s
  rw [hexecute]
  intro bbox after
  -- A path that is empty or has no finite bounds leaves the clip as it was.
  rcases clipPath_cases hbudget rule s.cleared with hsame | hclipped
  · have hafter : after = s.state := hsame
    rw [hafter]
    refine ⟨fun _ _ _ _ _ _ => le_rfl, ?_, fun _ _ _ _ => le_rfl⟩
    intro hnone p
    simp [hnone]
  · have hafter : after = clipped options s.path.toList rule s.state := hclipped
    rw [hafter]
    refine ⟨fun m hm col hcol row hrow => clipped_center_le hword hm hcol hrow,
      fun hnone p => lt_clipped_iff hnone p, ?_⟩
    intro hnone hx hy p
    refine not_lt.1 fun hlt => ?_
    have hadmits := ((lt_clipped_iff hnone p).1 hlt).1
    have hflat : bbox.isDrawable = false := (Mask.ofClip?_eq_none_iff hbudget).1 hnone
    rcases Rect.eq_of_admits hflat hadmits with h | h
    · exact hx h
    · exact hy h

def coarseClips : Options ℚ := { Options.standard with clipBudget := 3 }

def leftThird (pending : String) : Interpreter ℚ :=
  let ts := tokenize (Utf8.encode ("0 0 1 3 re 3 3 m W " ++ pending))
  (execute coarseClips ts (.ofPage .empty coarseClips)).state

theorem execute_clip_uncovers_iff_leftThird :
    let square := leftThird "0 0 3 3 re"
    let within := (execute coarseClips [.operator "W*"] square).state.state
    let line := leftThird "1.5 0 m 1.5 3 l"
    let after := (execute coarseClips [.operator "W"] line).state.state
    within.clipMask.isSome ∧
      (∀ m, within.clipMask = some m → ∀ col < m.width, ∀ row < m.height,
        within.clipCoverage (m.pixelCenter col row) ≤
          square.state.clipCoverage (m.pixelCenter col row)) ∧
      after.clipMask = none ∧
      ∃ m, line.state.clipMask = some m ∧ m.sample ⟨3 / 2, 1 / 2⟩ ≠ 255 := by
  intro square within line after
  have hwithin := execute_clip_uncovers_iff coarseClips (by decide) (by decide) (.inr rfl) square
  have hline := execute_clip_uncovers_iff coarseClips (by decide) (by decide) (.inl rfl) line
  have hnone : after.clipMask = none := by decide +kernel
  have huncovered : line.state.clipCoverage ⟨3 / 2, 1 / 2⟩ < after.clipCoverage ⟨3 / 2, 1 / 2⟩ := by
    decide +kernel
  exact ⟨by decide +kernel, hwithin.1, hnone, ((hline.2.1 hnone _).1 huncovered).2⟩

/-- Clipped to a line through the middle of the square, its hidden part shows on that line. -/
theorem execute_clip_uncovers_line :
    let line := leftThird "1.5 0 m 1.5 3 l"
    let after := (execute coarseClips [.operator "W"] line).state.state
    after.clipMask = none ∧ line.state.clipCoverage ⟨3 / 2, 1 / 2⟩ = 0 ∧
      after.clipCoverage ⟨3 / 2, 1 / 2⟩ = 1 := by
  refine ⟨?_, ?_, ?_⟩
  · decide +kernel
  · decide +kernel
  · decide +kernel

end Interpreter
end ContentStream
