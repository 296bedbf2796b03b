import Mathlib
import ContentStream.Proofs.NestedArrays
import ContentStream.Proofs.ShadingBounds
import ContentStream.Proofs.Signatures

set_option autoImplicit false

namespace ContentStream
variable {K : Type} [ExactField K]

/-! ## Concatenation -/

namespace Transform

def operands (m : Transform K) : List (Operand K) :=
  [.number m.a, .number m.b, .number m.c, .number m.d, .number m.e, .number m.f]

def concatTokens (m : Transform K) : List (Token K) :=
  Operand.tokensOfItems m.operands ++ [.operator "cm"]

def concatenated (ctm : Transform K) (ms : List (Transform K)) : Transform K :=
  ms.foldl (fun ctm m => m.compose ctm) ctm

theorem apply_concatenated (ctm : Transform K) (ms : List (Transform K)) (p : Point K) :
    (concatenated ctm ms).apply p = ctm.apply (ms.foldr apply p) := by
  induction ms generalizing ctm with
  | nil => rfl
  | cons m ms ih => exact (ih (m.compose ctm)).trans (apply_compose m ctm _)

end Transform

namespace Interpreter
variable {options : Options K}

def concat (m : Transform K) (s : Interpreter K) : Interpreter K :=
  s.modifyState fun g => { g with ctm := m.compose g.ctm }

theorem apply_concat (m : Transform K) (args : Operand.Stack K) (s : Interpreter K) :
    s.apply options .concat (m.operands.reverse ++ args) = s.concat m := by
  have hnumbers : (Operand.popNumbers 6 (m.operands.reverse ++ args)).1 =
      some [m.a, m.b, m.c, m.d, m.e, m.f] :=
    Operand.popNumbers_numbers [m.a, m.b, m.c, m.d, m.e, m.f] (fun _ _ => rfl) args
  simp only [apply, hnumbers]
  rfl

theorem execute_concat (m : Transform K) (ts : List (Token K)) (s : Interpreter K) :
    execute options (.operator "cm" :: ts) (s.given m.operands) =
      execute options ts (s.cleared.concat m) := by
  rw [execute_given .concat rfl (by decide) (by decide), apply_concat]

theorem execute_concatTokens (options : Options K) (ms : List (Transform K)) {s : Interpreter K}
    (h : s.arrays = []) :
    (execute options (ms.flatMap Transform.concatTokens) s).fault = none ∧
    (execute options (ms.flatMap Transform.concatTokens) s).state.state =
      { s.state with ctm := .concatenated s.state.ctm ms } := by
  induction ms generalizing s with
  | nil =>
    rw [List.flatMap_nil, execute_nil]
    exact ⟨rfl, rfl⟩
  | cons m ms ih =>
    have hfirst : execute options ((m :: ms).flatMap Transform.concatTokens) s =
        execute options (ms.flatMap Transform.concatTokens) (s.cleared.concat m) := by
      rw [List.flatMap_cons, Transform.concatTokens, List.append_assoc, execute_tokensOfItems h]
      exact execute_concat m _ s
    rw [hfirst]
    exact ih rfl

end Interpreter

/-! ## Rectangles -/

theorem affine_le {s k u v t hi : K} (ht : min u v ≤ t ∧ t ≤ max u v) (hu : s * u + k ≤ hi)
    (hv : s * v + k ≤ hi) : s * t + k ≤ hi := by
  rcases le_total 0 s with hs | hs
  · have hmax := mul_le_mul_of_nonneg_left ht.2 hs
    rcases max_choice u v with h | h <;> rw [h] at hmax <;> linarith
  · have hmin := mul_le_mul_of_nonpos_left ht.1 hs
    rcases min_choice u v with h | h <;> rw [h] at hmin <;> linarith

namespace Rect
variable {r s : Rect K} {p : Point K}

/-- What bounds an affine form at the corners bounds it everywhere between them. -/
theorem form_le {a c e hi : K} (hp : r.normalize.admits p = true)
    (h : ∀ q ∈ r.corners, a * q.x + c * q.y + e ≤ hi) : a * p.x + c * p.y + e ≤ hi := by
  obtain ⟨hx, hy⟩ := admits_normalize_iff.1 hp
  simp only [corners, List.forall_mem_cons, List.not_mem_nil, false_imp_iff, implies_true,
    and_true] at h
  obtain ⟨h00, h10, h11, h01⟩ := h
  have hbottom : a * p.x + (c * r.y0 + e) ≤ hi := affine_le hx (by linarith) (by linarith)
  have htop : a * p.x + (c * r.y1 + e) ≤ hi := affine_le hx (by linarith) (by linarith)
  have hbetween : c * p.y + (a * p.x + e) ≤ hi := affine_le hy (by linarith) (by linarith)
  linarith

theorem admits_apply {m : Transform K} (hp : r.normalize.admits p = true)
    (h : ∀ q ∈ r.corners, s.admits (m.apply q) = true) : s.admits (m.apply p) = true := by
  simp only [admits_iff, Transform.apply] at h ⊢
  refine ⟨⟨?_, form_le hp fun q hq => (h q hq).1.2⟩, ?_, form_le hp fun q hq => (h q hq).2.2⟩
  · -- A lower bound is an upper one of the form turned around.
    have hneg : -m.a * p.x + -m.c * p.y + -m.e ≤ -s.x0 :=
      form_le hp fun q hq => by linarith [(h q hq).1.1]
    linarith
  · have hneg : -m.b * p.x + -m.d * p.y + -m.f ≤ -s.y0 :=
      form_le hp fun q hq => by linarith [(h q hq).2.1]
    linarith

end Rect

/-- Composition is that of maps. A `cm` with its operands puts a transform before those in force,
from any state, so of several that are written one after the other the last one is applied first.
An inverse undoes its transform on both sides, and all transforms have one whose determinant is not
too near zero. A transformed rectangle has the image of all that is between its corners, in
whichever order they are given, and of the images of the corners, if these are on the page, it is
the bounding box. -/
theorem transform_actions (options : Options K) :
    (∀ (m n : Transform K) (p : Point K), (m.compose n).apply p = n.apply (m.apply p)) ∧
    (∀ (s : Interpreter K) (m : Transform K),
      let r := Interpreter.execute options [.operator "cm"] (s.given m.operands)
      r.fault = none ∧ ∀ p, r.state.state.ctm.apply p = s.state.ctm.apply (m.apply p)) ∧
    (∀ s : Interpreter K, s.arrays = [] → ∀ ms : List (Transform K),
      let r := Interpreter.execute options (ms.flatMap Transform.concatTokens) s
      r.fault = none ∧
      ∀ p, r.state.state.ctm.apply p = s.state.ctm.apply (ms.foldr Transform.apply p)) ∧
    (∀ m : Transform K, (m.inverse?.isSome = true ↔ Scalar.tolerance ≤ |m.determinant|) ∧
      ∀ i, m.inverse? = some i → ∀ p, i.apply (m.apply p) = p ∧ m.apply (i.apply p) = p) ∧
    ∀ (m : Transform K) (r : Rect K),
      (∀ p, r.normalize.admits p = true → (m.applyRect r).admits (m.apply p) = true) ∧
      ((∀ q ∈ r.corners, (Rect.unbounded : Rect K).admits (m.apply q) = true) →
        ∀ t : Rect K, (∀ q ∈ r.corners, t.admits (m.apply q) = true) →
          (m.applyRect r).IsWithin t) := by
  refine ⟨Transform.apply_compose, ?_, ?_, ?_, ?_⟩
  · intro s m
    rw [Interpreter.execute_concat, Interpreter.execute_nil]
    exact ⟨rfl, Transform.apply_compose m s.state.ctm⟩
  · intro s hclosed ms r
    obtain ⟨hfault, hstate⟩ := Interpreter.execute_concatTokens options ms hclosed
    refine ⟨hfault, fun p => ?_⟩
    rw [hstate]
    exact Transform.apply_concatenated s.state.ctm ms p
  · intro m
    refine ⟨m.inverse?_isSome_iff, fun i hi p => ⟨?_, ?_⟩⟩
    · exact Transform.inverse_apply hi p
    · exact Transform.apply_inverse hi p
  · intro m r
    refine ⟨fun p hp => Rect.admits_apply hp fun q hq => admits_corner hq, ?_⟩
    exact fun hpage t ht => applyRect_isWithin hpage ht

/-- A quarter turn and then a shift, which moves the point first. A skew takes a rectangle, given
from its upper right corner, to one that is larger than the image. -/
theorem transform_actions_skewed :
    let options : Options ℚ := .standard
    let page : Interpreter ℚ := .ofPage .empty options
    let turn : Transform ℚ := ⟨0, 1, -1, 0, 0, 0⟩
    let shift : Transform ℚ := ⟨1, 0, 0, 1, 5, 0⟩
    let skew : Transform ℚ := ⟨1, 1, -1, 2, 0, 0⟩
    let inverse : Transform ℚ := ⟨2/3, -1/3, 1/3, 1/3, 0, 0⟩
    let r : Rect ℚ := ⟨3, 4, 1, 2⟩
    page.arrays = [] ∧
    (Interpreter.execute options ([turn, shift].flatMap Transform.concatTokens)
      page).state.state.ctm.apply ⟨1, 0⟩ = ⟨0, 6⟩ ∧
    skew.inverse? = some inverse ∧
    inverse.apply (skew.apply ⟨7, 9⟩) = ⟨7, 9⟩ ∧
    r.normalize.admits ⟨2, 3⟩ = true ∧
    (skew.applyRect r).admits (skew.apply ⟨2, 3⟩) = true ∧
    (∀ q ∈ r.corners, (Rect.unbounded : Rect ℚ).admits (skew.apply q) = true) ∧
    (∀ q ∈ r.corners, (⟨-3, 5, 1, 11⟩ : Rect ℚ).admits (skew.apply q) = true) ∧
    (skew.applyRect r).IsWithin ⟨-3, 5, 1, 11⟩ := by
  intro options page turn shift skew inverse r
  obtain ⟨-, -, hwritten, hinverse, hrect⟩ := transform_actions options
  obtain ⟨hcontains, hleast⟩ := hrect skew r
  have hskew : skew.inverse? = some inverse := by decide +kernel
  have hmiddle : r.normalize.admits ⟨2, 3⟩ = true := by decide +kernel
  have hpage : ∀ q ∈ r.corners, (Rect.unbounded : Rect ℚ).admits (skew.apply q) = true := by
    decide +kernel
  have hbox : ∀ q ∈ r.corners, (⟨-3, 5, 1, 11⟩ : Rect ℚ).admits (skew.apply q) = true := by
    decide +kernel
  refine ⟨rfl, ?_, hskew, ?_, hmiddle, hcontains _ hmiddle, hpage, hbox, hleast hpage _ hbox⟩
  · rw [(hwritten page rfl [turn, shift]).2]
    decide +kernel
  · exact ((hinverse skew).2 inverse hskew _).1

end ContentStream
