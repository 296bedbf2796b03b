import Mathlib
import ContentStream.ColorFunction
import ContentStream.Proofs.MaskSampling
import ContentStream.Proofs.ScalarLaws

set_option autoImplicit false

/-!
# Colour functions between their values

A tree of linear pieces takes each component from between the values that its leaves list for that
component: on the way down the parameter is restricted to every domain, so that no line is followed
past its ends. All the lists on the way are long enough for what is read from them.
-/
namespace ContentStream
open Scalar

namespace ColorFunction

@[elab_as_elim, induction_eliminator]
theorem induction {K : Type} {motive : ColorFunction K → Prop}
    (exponential : ∀ d0 d1 c0 c1 exponent, motive (.exponential d0 d1 c0 c1 exponent))
    (stitching : ∀ d0 d1 functions bounds encode, (∀ f ∈ functions, motive f) →
      motive (.stitching d0 d1 functions bounds encode))
    (sampled : ∀ d0 d1 samples, motive (.sampled d0 d1 samples)) (f : ColorFunction K) :
    motive f :=
  @ColorFunction.rec K motive (fun functions => ∀ f ∈ functions, motive f) exponential stitching
    sampled (List.forall_mem_nil _) (fun _ _ hf hrest => List.forall_mem_cons.2 ⟨hf, hrest⟩) f

section Reads
variable {K : Type} [Scalar K]

/-! ## Evaluation by reads that may fail -/

def encodePart? (d0 d1 : K) (bounds : List K) (encode : List (K × K)) (k : Nat) (t : K) :
    Option K :=
  (if k = 0 then some d0 else bounds[k - 1]?).map fun lo =>
    let hi := bounds.getD k d1
    let (e0, e1) := encode.getD k (0, 1)
    if unitSpacing < Scalar.abs (hi - lo) then e0 + (t - lo) * (e1 - e0) / (hi - lo) else e0

def evalSampled? (d0 d1 : K) (samples : List (List K)) (t : K) : Option (List K) :=
  if samples.isEmpty then some []
  else if samples.length = 1 ∨ Scalar.abs (d1 - d0) < unitSpacing then samples[0]?
  else
    let position := (t - d0) / (d1 - d0) * ((samples.length - 1 : Nat) : K)
    let i := Nat.min (truncate position) (samples.length - 2)
    Option.map₂ (interpolate (position - (i : K))) samples[i]? samples[i + 1]?

mutual

def eval? : ColorFunction K → K → Option (List K)
  | exponential d0 d1 c0 c1 exponent, t =>
    some (evalExponential c0 c1 exponent (restrict d0 d1 t))
  | stitching d0 d1 functions bounds encode, t =>
    let t := restrict d0 d1 t
    let k := part bounds functions.length t
    if functions.isEmpty then some []
    else (encodePart? d0 d1 bounds encode k t).bind fun x => evalAt? functions k x
  | sampled d0 d1 samples, t => evalSampled? d0 d1 samples (restrict d0 d1 t)
  termination_by structural f => f

def evalAt? : List (ColorFunction K) → Nat → K → Option (List K)
  | [], _, _ => none
  | f :: _, 0, t => f.eval? t
  | _ :: fs, k + 1, t => evalAt? fs k t
  termination_by structural fs => fs

end

theorem evalAt_eq (functions : List (ColorFunction K)) (k : Nat) (t : K) :
    evalAt functions k t = (functions[k]?.map fun f => f.eval t).getD [] := by
  induction functions generalizing k with
  | nil => rfl
  | cons f fs ih =>
    cases k with
    | zero => rfl
    | succ k => exact ih k

theorem evalAt?_eq (functions : List (ColorFunction K)) (k : Nat) (t : K) :
    evalAt? functions k t = functions[k]?.bind fun f => f.eval? t := by
  induction functions generalizing k with
  | nil => rfl
  | cons f fs ih =>
    cases k with
    | zero => rfl
    | succ k => exact ih k

theorem part_lt (bounds : List K) {count : Nat} (hcount : 0 < count) (t : K) :
    part bounds count t < count :=
  (Nat.min_le_right _ _).trans_lt (Nat.sub_one_lt hcount.ne')

theorem part_le (bounds : List K) (count : Nat) (t : K) : part bounds count t ≤ bounds.length :=
  (Nat.min_le_left _ _).trans List.findIdx_le_length

theorem exists_part {functions : List (ColorFunction K)} (h : functions ≠ []) (bounds : List K)
    (t : K) : ∃ f ∈ functions, functions[part bounds functions.length t]? = some f :=
  have hlt := part_lt bounds (List.length_pos_iff.2 h) t
  ⟨_, List.getElem_mem hlt, List.getElem?_eq_getElem hlt⟩

theorem encodePart?_eq (d0 d1 : K) {bounds : List K} (encode : List (K × K)) {k : Nat}
    (hk : k ≤ bounds.length) (t : K) :
    encodePart? d0 d1 bounds encode k t = some (encodePart d0 d1 bounds encode k t) := by
  have hlo : (if k = 0 then some d0 else bounds[k - 1]?) =
      some (if k = 0 then d0 else bounds.getD (k - 1) d0) := by
    split
    · rfl
    · have hlt : k - 1 < bounds.length := by omega
      rw [List.getD_eq_getElem _ _ hlt, List.getElem?_eq_getElem hlt]
  unfold encodePart? encodePart
  rw [hlo]
  rfl

theorem evalSampled?_eq (d0 d1 : K) (samples : List (List K)) (t : K) :
    evalSampled? d0 d1 samples t = some (evalSampled d0 d1 samples t) := by
  unfold evalSampled? evalSampled
  cases samples with
  | nil => rfl
  | cons first rest =>
    cases rest with
    | nil => simp
    | cons second rest =>
      simp only [List.isEmpty_cons, Bool.false_eq_true, if_false, List.length_cons, Bool.false_or,
        decide_eq_true_eq, Nat.add_sub_cancel]
      by_cases hpoint : Scalar.abs (d1 - d0) < unitSpacing
      · rw [if_pos (.inr hpoint), if_pos hpoint]
        rfl
      · rw [if_neg (by simp [hpoint]), if_neg hpoint]
        let i := Nat.min (truncate ((t - d0) / (d1 - d0) * ((rest.length + 1 : Nat) : K)))
          rest.length
        have hi : i ≤ rest.length := Nat.min_le_right _ _
        have hlt : i < (first :: second :: rest).length := by
          rw [List.length_cons, List.length_cons]
          omega
        have hlt' : i + 1 < (first :: second :: rest).length := by
          rw [List.length_cons, List.length_cons]
          omega
        change Option.map₂ _ (first :: second :: rest)[i]? (first :: second :: rest)[i + 1]? =
          some (interpolate _ ((first :: second :: rest).getD i [])
            ((first :: second :: rest).getD (i + 1) []))
        rw [List.getD_eq_getElem _ _ hlt, List.getElem?_eq_getElem hlt,
          List.getD_eq_getElem _ _ hlt', List.getElem?_eq_getElem hlt']
        rfl

theorem eval?_eq (f : ColorFunction K) (t : K) : f.eval? t = some (f.eval t) := by
  induction f generalizing t with
  | exponential d0 d1 c0 c1 exponent => rfl
  | sampled d0 d1 samples => exact evalSampled?_eq d0 d1 samples _
  | stitching d0 d1 functions bounds encode ih =>
    rw [eval?, eval]
    split
    · rename_i hempty
      rw [List.isEmpty_iff.1 hempty]
      rfl
    · rename_i hempty
      obtain ⟨f, hf, hpart⟩ := exists_part (mt List.isEmpty_iff.2 hempty) bounds (restrict d0 d1 t)
      rw [encodePart?_eq d0 d1 encode (part_le _ _ _), Option.bind_some, evalAt?_eq, evalAt_eq,
        hpart]
      exact ih f hf _

end Reads

/-! ## Leaves -/

section Leaves
variable {K : Type}

mutual

def rows : ColorFunction K → List (List K)
  | exponential _ _ c0 c1 _ => [c0, c1]
  | stitching _ _ functions _ _ => rowsOf functions
  | sampled _ _ samples => samples
  termination_by structural f => f

def rowsOf : List (ColorFunction K) → List (List K)
  | [] => []
  | f :: fs => f.rows ++ rowsOf fs
  termination_by structural fs => fs

end

theorem rows_subset_rowsOf {f : ColorFunction K} {functions : List (ColorFunction K)}
    (h : f ∈ functions) : f.rows ⊆ rowsOf functions := by
  induction functions with
  | nil => exact absurd h List.not_mem_nil
  | cons g fs ih =>
    rw [rowsOf]
    rcases List.mem_cons.1 h with rfl | h
    · exact List.subset_append_left _ _
    · exact List.subset_append_of_subset_right _ (ih h)

def column (rows : List (List K)) (k : Nat) : List K := rows.filterMap fun row => row[k]?

theorem mem_column {rows : List (List K)} {k : Nat} {x : K} :
    x ∈ column rows k ↔ ∃ row ∈ rows, row[k]? = some x :=
  List.mem_filterMap

end Leaves

variable {K : Type} [ExactField K]

/-- A tree of functions that are linear from each value to the next one: of samples, of exponential
functions of exponent one within the unit interval, and of parts with any bounds. The rows of a leaf
have the same length. -/
inductive IsLinear : ColorFunction K → Prop
  | exponential {d0 d1 : K} {c0 c1 : List K} (h0 : InUnit d0) (h1 : InUnit d1)
      (hlength : c0.length = c1.length) : IsLinear (.exponential d0 d1 c0 c1 1)
  | stitching {d0 d1 : K} {functions : List (ColorFunction K)} {bounds : List K}
      {encode : List (K × K)} (hfunctions : functions ≠ []) (h : ∀ f ∈ functions, f.IsLinear) :
      IsLinear (.stitching d0 d1 functions bounds encode)
  | sampled {d0 d1 : K} {samples : List (List K)} (hsamples : samples ≠ [])
      (hlength : ∀ a ∈ samples, ∀ b ∈ samples, a.length = b.length) :
      IsLinear (.sampled d0 d1 samples)

/-- The row is as long as one of the others, and has each component between two that they list. -/
structure Spans (rows : List (List K)) (row : List K) : Prop where
  length : ∃ a ∈ rows, row.length = a.length
  between : ∀ k x, row[k]? = some x → ∃ lo ∈ column rows k, ∃ hi ∈ column rows k, lo ≤ x ∧ x ≤ hi

namespace Spans
variable {rows rows' : List (List K)} {row : List K}

theorem mono (hsubset : rows ⊆ rows') (h : Spans rows row) : Spans rows' row := by
  have hcolumn : ∀ k, column rows k ⊆ column rows' k :=
    fun k => List.filterMap_subset _ hsubset
  obtain ⟨a, ha, hlength⟩ := h.length
  refine ⟨⟨a, hsubset ha, hlength⟩, ?_⟩
  intro k x hx
  obtain ⟨lo, hlo, hi, hhi, hbetween⟩ := h.between k x hx
  exact ⟨lo, hcolumn k hlo, hi, hcolumn k hhi, hbetween⟩

theorem of_mem (h : row ∈ rows) : Spans rows row := by
  refine ⟨⟨row, h, rfl⟩, ?_⟩
  intro k x hx
  have hmem : x ∈ column rows k := mem_column.2 ⟨row, h, hx⟩
  exact ⟨x, hmem, x, hmem, le_rfl, le_rfl⟩

end Spans

theorem line_between {a b x : K} (hx : InUnit x) :
    min a b ≤ a + x * (b - a) ∧ a + x * (b - a) ≤ max a b := by
  have hmix : a + x * (b - a) = (1 - x) * a + x * b := by ring
  have hrest : 0 ≤ 1 - x := sub_nonneg.2 hx.2
  rw [hmix]
  constructor
  · nlinarith [min_le_left a b, min_le_right a b, hx.1]
  · nlinarith [le_max_left a b, le_max_right a b, hx.1]

theorem spans_interpolate {rows : List (List K)} {a b : List K} (ha : a ∈ rows) (hb : b ∈ rows)
    (hlength : a.length = b.length) {x : K} (hx : InUnit x) : Spans rows (interpolate x a b) := by
  refine ⟨⟨a, ha, ?_⟩, ?_⟩
  · rw [interpolate, List.length_zipWith, hlength, min_self]
  · intro k y hy
    obtain ⟨p, q, hp, hq, rfl⟩ := List.getElem?_zipWith_eq_some.1 hy
    have hpmem : p ∈ column rows k := mem_column.2 ⟨a, ha, hp⟩
    have hqmem : q ∈ column rows k := mem_column.2 ⟨b, hb, hq⟩
    obtain ⟨hmin, hmax⟩ := line_between (a := p) (b := q) hx
    rcases le_total p q with hpq | hqp
    · rw [min_eq_left hpq] at hmin
      rw [max_eq_right hpq] at hmax
      exact ⟨p, hpmem, q, hqmem, hmin, hmax⟩
    · rw [min_eq_right hqp] at hmin
      rw [max_eq_left hqp] at hmax
      exact ⟨q, hqmem, p, hpmem, hmin, hmax⟩

theorem restrict_mem (d0 d1 t : K) :
    min d0 d1 ≤ restrict d0 d1 t ∧ restrict d0 d1 t ≤ max d0 d1 := by
  unfold restrict
  rw [min_eq, max_eq, clamp_eq]
  exact ⟨le_min (le_max_right t _) min_le_max, min_le_right _ _⟩

theorem restrict_of_mem {d0 d1 t : K} (h : min d0 d1 ≤ t) (h' : t ≤ max d0 d1) :
    restrict d0 d1 t = t := by
  unfold restrict
  rw [min_eq, max_eq, clamp_eq, max_eq_left h, min_eq_left h']

/-- How far along its domain a parameter lies, which may be given backwards. -/
theorem inUnit_position {d0 d1 t : K} (hne : d0 ≠ d1) (h : min d0 d1 ≤ t) (h' : t ≤ max d0 d1) :
    InUnit ((t - d0) / (d1 - d0)) := by
  rcases lt_or_gt_of_ne hne with hlt | hgt
  · rw [min_eq_left hlt.le] at h
    rw [max_eq_right hlt.le] at h'
    have hpos : 0 < d1 - d0 := sub_pos.2 hlt
    exact ⟨div_nonneg (sub_nonneg.2 h) hpos.le, (div_le_one hpos).2 (by linarith)⟩
  · rw [min_eq_right hgt.le] at h
    rw [max_eq_left hgt.le] at h'
    have hneg : d1 - d0 < 0 := sub_neg.2 hgt
    exact ⟨div_nonneg_of_nonpos (by linarith) hneg.le, (div_le_one_of_neg hneg).2 (by linarith)⟩

theorem ne_of_unitSpacing_le {d0 d1 : K} (h : unitSpacing ≤ |d1 - d0|) : d0 ≠ d1 := by
  rintro rfl
  rw [sub_self, abs_zero] at h
  exact absurd h (not_le.2 unitSpacing_pos)

/-! ## Samples -/

section Samples
variable {d0 d1 : K} {samples : List (List K)}

theorem evalSampled_point (h : |d1 - d0| < unitSpacing) (hsamples : samples ≠ []) (t : K) :
    evalSampled d0 d1 samples t = samples.head hsamples := by
  obtain ⟨first, rest, rfl⟩ := List.exists_cons_of_ne_nil hsamples
  have hpoint : Scalar.abs (d1 - d0) < unitSpacing := by
    rw [abs_eq]
    exact h
  simp [evalSampled, hpoint]

theorem evalSampled_eq (h : unitSpacing ≤ |d1 - d0|) (hsamples : 2 ≤ samples.length) (t : K) :
    evalSampled d0 d1 samples t =
      let position := (t - d0) / (d1 - d0) * ((samples.length - 1 : Nat) : K)
      let i := min ⌊position⌋₊ (samples.length - 2)
      interpolate (position - (i : K)) (samples.getD i []) (samples.getD (i + 1) []) := by
  have hwide : ¬ Scalar.abs (d1 - d0) < unitSpacing := by
    rw [abs_eq]
    exact not_lt.2 h
  match samples, hsamples with
  | first :: second :: rest, _ =>
    unfold evalSampled
    dsimp only
    rw [if_neg (by simp [hwide])]
    rfl

theorem inUnit_fraction {x : K} {n : ℕ} (hn : 0 < n) (h : 0 ≤ x) (h' : x ≤ n) :
    InUnit (x - ((min ⌊x⌋₊ (n - 1) : ℕ) : K)) := by
  have hfloor : ((min ⌊x⌋₊ (n - 1) : ℕ) : K) ≤ x :=
    (Nat.cast_le.2 (min_le_left _ _)).trans (Nat.floor_le h)
  refine ⟨sub_nonneg.2 hfloor, sub_le_iff_le_add'.2 ?_⟩
  rcases le_total ⌊x⌋₊ (n - 1) with hle | hle
  · rw [min_eq_left hle]
    exact (Nat.lt_floor_add_one x).le
  · rw [min_eq_right hle, Nat.cast_pred hn]
    linarith

theorem spans_evalSampled (hsamples : samples ≠ [])
    (hlength : ∀ a ∈ samples, ∀ b ∈ samples, a.length = b.length) (t : K) :
    Spans samples (evalSampled d0 d1 samples (restrict d0 d1 t)) := by
  rcases lt_or_ge |d1 - d0| unitSpacing with hpoint | hwide
  · rw [evalSampled_point hpoint hsamples]
    exact .of_mem (List.head_mem hsamples)
  by_cases hone : samples.length = 1
  · obtain ⟨row, rfl⟩ := List.length_eq_one_iff.1 hone
    exact .of_mem (List.mem_singleton_self row)
  have htwo : 2 ≤ samples.length := by
    have hpos := List.length_pos_iff.2 hsamples
    omega
  rw [evalSampled_eq hwide htwo]
  dsimp only
  obtain ⟨hlow, hhigh⟩ := restrict_mem d0 d1 t
  have hunit := inUnit_position (ne_of_unitSpacing_le hwide) hlow hhigh
  generalize (restrict d0 d1 t - d0) / (d1 - d0) = u at hunit ⊢
  have hn : (0 : K) ≤ ((samples.length - 1 : ℕ) : K) := Nat.cast_nonneg _
  have hfraction := inUnit_fraction (n := samples.length - 1) (by omega) (mul_nonneg hunit.1 hn)
    (mul_le_of_le_one_left hn hunit.2)
  rw [Nat.sub_sub] at hfraction
  generalize hi : min ⌊u * ((samples.length - 1 : ℕ) : K)⌋₊ (samples.length - 2) = i at hfraction ⊢
  have hile : i ≤ samples.length - 2 := hi ▸ min_le_right _ _
  have hlt : i < samples.length := by omega
  have hlt' : i + 1 < samples.length := by omega
  rw [List.getD_eq_getElem _ _ hlt, List.getD_eq_getElem _ _ hlt']
  exact spans_interpolate (List.getElem_mem hlt) (List.getElem_mem hlt')
    (hlength _ (List.getElem_mem hlt) _ (List.getElem_mem hlt')) hfraction

theorem interpolate_zero {a b : List K} (h : a.length = b.length) : interpolate 0 a b = a := by
  refine List.ext_getElem (by simp [interpolate, h]) ?_
  intro i _ _
  simp [interpolate]

theorem interpolate_one {a b : List K} (h : a.length = b.length) : interpolate 1 a b = b := by
  refine List.ext_getElem (by simp [interpolate, h]) ?_
  intro i _ _
  simp [interpolate]

def knot (d0 d1 : K) (count i : ℕ) : K := d0 + (i : K) * ((d1 - d0) / ((count - 1 : ℕ) : K))

theorem eval_knot (hwide : unitSpacing ≤ |d1 - d0|) (htwo : 2 ≤ samples.length)
    (hlength : ∀ a ∈ samples, ∀ b ∈ samples, a.length = b.length) {i : ℕ} {row : List K}
    (hrow : samples[i]? = some row) :
    (sampled d0 d1 samples).eval (knot d0 d1 samples.length i) = row := by
  obtain ⟨hlt, rfl⟩ := List.getElem?_eq_some_iff.1 hrow
  have hne := ne_of_unitSpacing_le hwide
  have hn : (0 : K) < ((samples.length - 1 : ℕ) : K) := Nat.cast_pos.2 (by omega)
  have hi : (i : K) ≤ ((samples.length - 1 : ℕ) : K) := Nat.cast_le.2 (by omega)
  have hunit : InUnit ((i : K) / ((samples.length - 1 : ℕ) : K)) :=
    ⟨div_nonneg (Nat.cast_nonneg i) hn.le, (div_le_one hn).2 hi⟩
  have hknot : knot d0 d1 samples.length i =
      d0 + (i : K) / ((samples.length - 1 : ℕ) : K) * (d1 - d0) := by
    unfold knot
    ring
  obtain ⟨hlow, hhigh⟩ := line_between (a := d0) (b := d1) hunit
  rw [← hknot] at hlow hhigh
  have hposition : (knot d0 d1 samples.length i - d0) / (d1 - d0) *
      ((samples.length - 1 : ℕ) : K) = i := by
    rw [hknot, add_sub_cancel_left, mul_div_cancel_right₀ _ (sub_ne_zero.2 hne.symm),
      div_mul_cancel₀ _ hn.ne']
  rw [eval, restrict_of_mem hlow hhigh, evalSampled_eq hwide htwo, hposition]
  dsimp only
  rw [Nat.floor_natCast]
  rcases Nat.lt_or_ge i (samples.length - 1) with hinner | hlast
  · have hlt' : i + 1 < samples.length := by omega
    rw [min_eq_left (by omega), sub_self, List.getD_eq_getElem _ _ hlt,
      List.getD_eq_getElem _ _ hlt']
    exact interpolate_zero (hlength _ (List.getElem_mem hlt) _ (List.getElem_mem hlt'))
  · -- The last sample is the end of the line before it.
    obtain ⟨j, rfl⟩ : ∃ j, i = j + 1 := ⟨i - 1, by omega⟩
    have hlt' : j < samples.length := by omega
    rw [show min (j + 1) (samples.length - 2) = j by omega, Nat.cast_succ, add_sub_cancel_left,
      List.getD_eq_getElem _ _ hlt', List.getD_eq_getElem _ _ hlt]
    exact interpolate_one (hlength _ (List.getElem_mem hlt') _ (List.getElem_mem hlt))

end Samples

/-! ## Trees -/

theorem IsLinear.spans {f : ColorFunction K} (h : f.IsLinear) (t : K) :
    Spans f.rows (f.eval t) := by
  induction h generalizing t with
  | @exponential d0 d1 c0 c1 h0 h1 hlength =>
    obtain ⟨hlow, hhigh⟩ := restrict_mem d0 d1 t
    have hunit : InUnit (restrict d0 d1 t) :=
      ⟨(le_min h0.1 h1.1).trans hlow, hhigh.trans (max_le h0.2 h1.2)⟩
    have heval : (ColorFunction.exponential d0 d1 c0 c1 1).eval t =
        interpolate (restrict d0 d1 t) c0 c1 := by
      rw [eval, evalExponential, if_pos (beq_self_eq_true _)]
    rw [heval]
    exact spans_interpolate (by simp [rows]) (by simp [rows]) hlength hunit
  | sampled hsamples hlength => exact spans_evalSampled hsamples hlength t
  | @stitching d0 d1 functions bounds encode hfunctions _ ih =>
    obtain ⟨f, hf, hpart⟩ := exists_part hfunctions bounds (restrict d0 d1 t)
    rw [eval, evalAt_eq, hpart]
    exact (ih f hf _).mono (rows_subset_rowsOf hf)

theorem exists_isLeast {l : List K} {x : K} (h : x ∈ l) : ∃ lo, IsLeast {y | y ∈ l} lo := by
  obtain ⟨lo, hlo, hmin⟩ := Set.exists_min_image {y | y ∈ l} id l.finite_toSet ⟨x, h⟩
  exact ⟨lo, hlo, hmin⟩

theorem exists_isGreatest {l : List K} {x : K} (h : x ∈ l) : ∃ hi, IsGreatest {y | y ∈ l} hi := by
  obtain ⟨hi, hhi, hmax⟩ := Set.exists_max_image {y | y ∈ l} id l.finite_toSet ⟨x, h⟩
  exact ⟨hi, hhi, hmax⟩

/-- A tree of linear functions reads from no list past its end. It gives as many components as one
of its rows has, each between the least and the greatest value that its leaves list for it. Samples
over a domain that is wider than a point are taken at equal distances, where their rows are given
exactly; over one that passes for a point the first row is given everywhere. -/
theorem eval_between {f : ColorFunction K} (h : f.IsLinear) :
    (∀ t, f.eval? t = some (f.eval t) ∧ (∃ row ∈ f.rows, (f.eval t).length = row.length) ∧
      ∀ k x, (f.eval t)[k]? = some x → ∃ lo hi, IsLeast {y | y ∈ column f.rows k} lo ∧
        IsGreatest {y | y ∈ column f.rows k} hi ∧ lo ≤ x ∧ x ≤ hi) ∧
    ∀ d0 d1 samples, f = sampled d0 d1 samples → 2 ≤ samples.length →
      (unitSpacing ≤ |d1 - d0| → ∀ i row, samples[i]? = some row →
        f.eval (knot d0 d1 samples.length i) = row) ∧
      (|d1 - d0| < unitSpacing → ∀ t, samples[0]? = some (f.eval t)) := by
  refine ⟨?_, ?_⟩
  · intro t
    refine ⟨f.eval?_eq t, (h.spans t).length, ?_⟩
    intro k x hx
    obtain ⟨a, ha, b, hb, hax, hxb⟩ := (h.spans t).between k x hx
    obtain ⟨lo, hlo⟩ := exists_isLeast ha
    obtain ⟨hi, hhi⟩ := exists_isGreatest ha
    exact ⟨lo, hi, hlo, hhi, (hlo.2 ha).trans hax, hxb.trans (hhi.2 hb)⟩
  · rintro d0 d1 samples rfl htwo
    obtain _ | _ | ⟨hsamples, hlength⟩ := h
    refine ⟨fun hwide i row hrow => eval_knot hwide htwo hlength hrow, ?_⟩
    intro hpoint t
    rw [eval, evalSampled_point hpoint hsamples, List.head_eq_getElem, ← List.getElem?_eq_getElem]

def ridge : ColorFunction ℚ := .sampled 2 0 [[0, 5], [1, 3], [0, 4]]

def parts : ColorFunction ℚ :=
  .stitching 1 0 [ridge, .exponential 1 0 [1/2, 9] [3/4, 8] 1] [1/4, 1/2, 3/4] [(2, -1)]

/-- Past the last bound the second function goes on, and the first one takes no parameter beyond its
own domain. The second sample is given at its place, and not any more where the domain is narrow. -/
theorem eval_between_parts :
    parts.IsLinear ∧ parts.eval? (3/8) = some [5/8, 17/2] ∧ parts.eval? (7/8) = some [3/4, 8] ∧
    parts.eval? (1/8) = some [0, 4] ∧
    (∃ lo hi, IsLeast {y | y ∈ column parts.rows 1} lo ∧
      IsGreatest {y | y ∈ column parts.rows 1} hi ∧ lo ≤ 17/2 ∧ 17/2 ≤ hi) ∧
    ridge.eval (knot 2 0 3 1) = [1, 3] ∧
    (sampled (0 : ℚ) (1 / 10 ^ 17) [[0], [1]]).eval 1 = [0] := by
  have hridge : ridge.IsLinear := .sampled (by simp) (by decide)
  have hunit : InUnit (1 : ℚ) ∧ InUnit (0 : ℚ) := ⟨inUnit_one, inUnit_zero⟩
  have hparts : parts.IsLinear := by
    refine .stitching (by simp) (List.forall_mem_cons.2 ⟨hridge, List.forall_mem_singleton.2 ?_⟩)
    exact .exponential hunit.1 hunit.2 rfl
  have hnarrow : (sampled (0 : ℚ) (1 / 10 ^ 17) [[0], [1]]).IsLinear :=
    .sampled (by simp) (by decide)
  have hvalue : parts.eval? (3/8) = some [5/8, 17/2] := by decide +kernel
  obtain ⟨hread, -, hbetween⟩ := (eval_between hparts).1 (3/8)
  obtain ⟨hsamples, -⟩ := (eval_between hridge).2 2 0 _ rfl (by decide)
  obtain ⟨-, hpoint⟩ := (eval_between hnarrow).2 0 (1 / 10 ^ 17) _ rfl (by decide)
  rw [hread, Option.some.injEq] at hvalue
  refine ⟨hparts, by rw [hread, hvalue], by decide +kernel, by decide +kernel, ?_, ?_, ?_⟩
  · exact hbetween 1 (17/2) (by rw [hvalue]; rfl)
  · exact hsamples (by norm_num [unitSpacing]) 1 [1, 3] rfl
  · exact (Option.some.inj (hpoint (by norm_num [unitSpacing]) 1)).symm

end ColorFunction
end ContentStream
