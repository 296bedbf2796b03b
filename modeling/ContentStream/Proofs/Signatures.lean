import Mathlib
import ContentStream.Proofs.PendingPath

set_option autoImplicit false

namespace ContentStream
variable {K : Type}

inductive OperandKind
  | number
  | string
  | name
  | array
  deriving DecidableEq

/-- The kinds of the operands of an operator, in the order of writing. Only the number of colour
components is left open. -/
def Operator.signature? : Operator → Option (List OperandKind)
  | concat | curveTo | textMatrix => some (List.replicate 6 .number)
  | curveToV | curveToY | rect | strokeCmyk | fillCmyk => some (List.replicate 4 .number)
  | strokeRgb | fillRgb => some (List.replicate 3 .number)
  | moveTo | lineTo | moveText | moveTextSetLeading => some (List.replicate 2 .number)
  | lineWidth | lineCap | lineJoin | miterLimit | flatness | charSpacing | wordSpacing
  | horizontalScaling | leading | renderMode | rise | strokeGray | fillGray => some [.number]
  | renderingIntent | extGState | strokeColorSpace | fillColorSpace | paintShading
  | paintXObject => some [.name]
  | showText | nextLineShowText => some [.string]
  | showTextArray => some [.array]
  | dash => some [.array, .number]
  | font => some [.name, .number]
  | nextLineShowTextSpaced => some [.number, .number, .string]
  | save | restore | closePath | stroke | closeStroke | fill | fillObsolete | fillEvenOdd
  | fillStroke | fillStrokeEvenOdd | closeFillStroke | closeFillStrokeEvenOdd | endPath | clip
  | clipEvenOdd | beginText | endText | nextLine => some []
  | strokeColor | strokeColorN | fillColor | fillColorN => none

theorem Operator.exists_signature {name : String} {op : Operator} (h : ofName? name = some op)
    (hname : name ∉ ["SC", "SCN", "sc", "scn"]) : ∃ kinds, op.signature? = some kinds := by
  refine Option.ne_none_iff_exists'.1 fun hnone => hname ?_
  cases op <;> first | contradiction | skip
  case strokeColor =>
    obtain rfl : name = "SC" := ofName?_inj h rfl
    decide
  case strokeColorN =>
    obtain rfl : name = "SCN" := ofName?_inj h rfl
    decide
  case fillColor =>
    obtain rfl : name = "sc" := ofName?_inj h rfl
    decide
  case fillColorN =>
    obtain rfl : name = "scn" := ofName?_inj h rfl
    decide

namespace Operand
variable [Scalar K] {α : Type} {k : OperandKind} {kinds : List OperandKind} {x : Operand K}
  {args : Stack K} {n : Nat}

/-- A number counts as one only if it is finite. -/
def hasKind (k : OperandKind) (x : Operand K) : Bool :=
  match k, x with
  | .number, number v => Scalar.isFinite v
  | .string, string _ => true
  | .name, name _ => true
  | .array, array _ => true
  | _, _ => false

def Fits (kinds : List OperandKind) (args : Stack K) : Prop :=
  List.Forall₂ (fun k x => hasKind k x = true) kinds (args.take kinds.length).reverse

instance (kinds : List OperandKind) (args : Stack K) : Decidable (Fits kinds args) :=
  inferInstanceAs (Decidable (List.Forall₂ _ _ _))

theorem Fits.length_le (h : Fits kinds args) : kinds.length ≤ args.length := by
  have hlength := List.Forall₂.length_eq h
  rw [List.length_reverse, List.length_take] at hlength
  omega

theorem fits_nil (args : Stack K) : Fits [] args := .nil

theorem fits_concat :
    Fits (kinds ++ [k]) (x :: args) ↔ hasKind k x = true ∧ Fits kinds args := by
  unfold Fits
  rw [← List.forall₂_reverse_iff, ← @List.forall₂_reverse_iff _ _ _ kinds]
  simp

theorem not_fits_of_head (h : ¬ Fits (kinds ++ [k]) (x :: args)) (hx : hasKind k x = true) :
    ¬ Fits kinds args :=
  fun hargs => h (fits_concat.2 ⟨hx, hargs⟩)

/-! What an operator pops where the operands do not fit. -/

theorem popAs_of_not_fits {read : Operand K → Option α}
    (hread : ∀ x, (read x).isSome = hasKind k x) (h : ¬ Fits [k] args) :
    (popAs read args).1 = none := by
  cases args with
  | nil => rfl
  | cons x args =>
    refine Option.not_isSome_iff_eq_none.1 fun hx => h ?_
    exact fits_concat.2 ⟨hread x ▸ hx, fits_nil args⟩

theorem finite?_isSome (x : Operand K) : x.finite?.isSome = hasKind .number x := by
  cases x with
  | number v =>
    change (if Scalar.isFinite v then some v else none).isSome = Scalar.isFinite v
    cases Scalar.isFinite v <;> rfl
  | _ => rfl

theorem hasKind_of_finite? {v : K} (h : x.finite? = some v) : hasKind .number x = true := by
  rw [← finite?_isSome, h]
  rfl

theorem popNumber_of_not_fits (h : ¬ Fits [.number] args) : (popNumber args).1 = none :=
  popAs_of_not_fits finite?_isSome h

theorem popName_of_not_fits (h : ¬ Fits [.name] args) : (popName args).1 = none :=
  popAs_of_not_fits (fun x => by cases x <;> rfl) h

theorem popString_of_not_fits (h : ¬ Fits [.string] args) : (popString args).1 = none :=
  popAs_of_not_fits (fun x => by cases x <;> rfl) h

theorem popArray_of_not_fits (h : ¬ Fits [.array] args) : (popArray args).1 = none :=
  popAs_of_not_fits (fun x => by cases x <;> rfl) h

theorem popNumberArray_of_not_fits (h : ¬ Fits [.array] args) :
    (popNumberArray args).1 = none :=
  popAs_of_not_fits (fun x => by cases x <;> rfl) h

theorem takeNumbers_of_not_fits (h : ¬ Fits (List.replicate n .number) args) (acc : List K) :
    (takeNumbers n acc args).1 = none := by
  induction n generalizing args acc with
  | zero => exact absurd (fits_nil args) h
  | succ n ih =>
    cases args with
    | nil => rfl
    | cons x args =>
      rw [takeNumbers, popNumber_cons]
      rw [List.replicate_succ'] at h
      cases hx : x.finite? with
      | none => rfl
      | some v => exact ih (not_fits_of_head h (hasKind_of_finite? hx)) _

theorem popNumbers_of_not_fits (h : ¬ Fits (List.replicate n .number) args) :
    (popNumbers n args).1 = none := by
  unfold popNumbers
  split
  · rfl
  · exact takeNumbers_of_not_fits h []

theorem popNumbers_take (n : Nat) (args : Stack K) :
    (popNumbers n (args.take n)).1 = (popNumbers n args).1 := by
  simp [popNumbers_eq, lastFinite?, List.take_take]

/-! What an operator pops where they do. -/

theorem popNumber_of_isFinite {v : K} (hv : Scalar.isFinite v = true) (args : Stack K) :
    (popNumber (number v :: args)).1 = some v :=
  if_pos hv

theorem popNumbers_numbers (values : List K) (h : ∀ v ∈ values, Scalar.isFinite v = true)
    (args : Stack K) :
    (popNumbers values.length ((values.map number).reverse ++ args)).1 = some values := by
  have hread : (values.map number).mapM finite? = some values := by
    induction values with
    | nil => rfl
    | cons v values ih =>
      obtain ⟨hv, hvalues⟩ := List.forall_mem_cons.1 h
      rw [List.map_cons, List.mapM_cons, finite?, if_pos hv, ih hvalues]
      rfl
  have hlength : (values.map number).reverse.length = values.length := by simp
  rw [popNumbers_eq, lastFinite?, List.take_left' hlength, List.reverse_reverse, hread]
  refine if_neg ?_
  rw [List.length_append, hlength]
  omega

theorem popNumbers_pair {v w : K} (hv : Scalar.isFinite v = true) (hw : Scalar.isFinite w = true)
    (args : Stack K) : (popNumbers 2 (number w :: number v :: args)).1 = some [v, w] :=
  popNumbers_numbers [v, w] (by simp [hv, hw]) args

end Operand

namespace Interpreter
variable [Scalar K] {options : Options K} {op : Operator} {kinds : List OperandKind}

/-- An operator looks at its own operands only. -/
theorem apply_take (h : op.signature? = some kinds) (args : Operand.Stack K)
    (s : Interpreter K) :
    s.apply options op (args.take kinds.length) = s.apply options op args := by
  cases op <;> cases h
  case concat | curveTo | textMatrix | curveToV | curveToY | rect | strokeCmyk | fillCmyk
      | strokeRgb | fillRgb | moveTo | lineTo | moveText | moveTextSetLeading =>
    simp only [List.length_replicate, apply, Operand.popNumbers_take]
  case dash | font =>
    cases args with
    | nil => rfl
    | cons x args =>
      change s.apply options _ (x :: args.take 1) = s.apply options _ (x :: args)
      simp only [apply, Operand.popNumber_cons]
      cases x.finite? with
      | none => rfl
      | some v => cases args <;> rfl
  case nextLineShowTextSpaced =>
    cases args with
    | nil => rfl
    | cons x args =>
      change s.apply options _ (x :: args.take 2) = s.apply options _ (x :: args)
      cases x with
      | string bytes => simp only [apply, Operand.popString, Operand.popAs, Operand.popNumbers_take]
      | _ => rfl
  all_goals cases args <;> rfl

/-- An operator that lacks one of its operands does nothing. -/
theorem apply_of_not_fits (h : op.signature? = some kinds) {args : Operand.Stack K}
    (hargs : ¬ Operand.Fits kinds args) (s : Interpreter K) :
    s.apply options op args = s := by
  cases op <;> cases h
  case concat | curveTo | textMatrix | curveToV | curveToY | rect | strokeCmyk | fillCmyk
      | strokeRgb | fillRgb | moveTo | lineTo | moveText | moveTextSetLeading =>
    simp only [apply, Operand.popNumbers_of_not_fits hargs]
  -- What is popped first may fit: then the rest does not, and nothing has been done yet.
  case dash =>
    cases args with
    | nil => rfl
    | cons x args =>
      simp only [apply, Operand.popNumber_cons]
      cases hx : x.finite? with
      | none => rfl
      | some v =>
        have hrest : ¬ Operand.Fits [.array] args :=
          Operand.not_fits_of_head hargs (Operand.hasKind_of_finite? hx)
        simp only [Operand.popNumberArray_of_not_fits hrest, Option.elim_none]
  case font =>
    cases args with
    | nil => rfl
    | cons x args =>
      simp only [apply, Operand.popNumber_cons]
      cases hx : x.finite? with
      | none => rfl
      | some v =>
        have hrest : ¬ Operand.Fits [.name] args :=
          Operand.not_fits_of_head hargs (Operand.hasKind_of_finite? hx)
        simp only [Operand.popName_of_not_fits hrest, Option.elim_none]
  case nextLineShowTextSpaced =>
    cases args with
    | nil => rfl
    | cons x args =>
      cases x with
      | string bytes =>
        have hrest : ¬ Operand.Fits (List.replicate 2 .number) args :=
          Operand.not_fits_of_head hargs rfl
        simp only [apply, Operand.popString, Operand.popAs, Operand.popNumbers_of_not_fits hrest]
      | _ => rfl
  case lineWidth | lineCap | lineJoin | miterLimit | flatness | charSpacing | wordSpacing
      | horizontalScaling | leading | renderMode | rise | strokeGray | fillGray =>
    simp only [apply, Operand.popInt, Operand.popNumber_of_not_fits hargs, Option.map_none,
      Option.elim_none]
  case renderingIntent | strokeColorSpace | fillColorSpace | paintShading =>
    simp only [apply, Operand.popName_of_not_fits hargs, Option.elim_none]
  case extGState | paintXObject => rfl
  case showText | nextLineShowText =>
    simp only [apply, Operand.popString_of_not_fits hargs, Option.elim_none]
  case showTextArray =>
    simp only [apply, Operand.popArray_of_not_fits hargs, Option.elim_none]
  all_goals exact absurd (Operand.fits_nil args) hargs

theorem dispatch_take (run : Run K) (h : op.signature? = some kinds) (args : Operand.Stack K)
    (s : Interpreter K) :
    s.dispatch run options op (args.take kinds.length) = s.dispatch run options op args := by
  have happly : Outcome.ok (s.apply options op (args.take kinds.length)) =
      .ok (s.apply options op args) := congrArg Outcome.ok (apply_take h args s)
  cases op
  case extGState | paintXObject =>
    cases h
    cases args <;> rfl
  all_goals exact happly

theorem dispatch_of_not_fits (run : Run K) (h : op.signature? = some kinds)
    {args : Operand.Stack K} (hargs : ¬ Operand.Fits kinds args) (s : Interpreter K) :
    s.dispatch run options op args = .ok s := by
  have happly : Outcome.ok (s.apply options op args) = .ok s :=
    congrArg Outcome.ok (apply_of_not_fits h hargs s)
  cases op
  case extGState | paintXObject =>
    cases h
    simp only [dispatch, Operand.popName_of_not_fits hargs, Option.elim_none]
  all_goals exact happly

section Step
variable {name : String} (run : Run K) (hname : Operator.ofName? name = some op)
  (h : op.signature? = some kinds) {s u : Interpreter K}
include hname h

theorem step_of_not_fits (hargs : ¬ Operand.Fits kinds s.operands) :
    s.step run options (.operator name) = .ok s.cleared := by
  rw [step_operator_some run options hname, dispatch_of_not_fits run h hargs]
  rfl

/-- States that differ in open arrays and in the operands below take the same step. -/
theorem step_eq_of_take (hcleared : u.cleared = s.cleared)
    (hargs : u.operands.take kinds.length = s.operands.take kinds.length) :
    u.step run options (.operator name) = s.step run options (.operator name) := by
  rw [step_operator_some run options hname, step_operator_some run options hname, hcleared,
    ← dispatch_take run h u.operands, hargs, dispatch_take run h]

end Step

/-- An operator with fixed operands that does not find them at the end of the stack, each of its
kind, does nothing, whichever of them it finds. If it does find them, nothing below them matters.
An unknown operator does nothing. -/
theorem execute_signature (options : Options K) (s : Interpreter K) (name : String) :
    (∀ op, Operator.ofName? name = some op → name ∉ ["SC", "SCN", "sc", "scn"] →
      ∃ kinds, op.signature? = some kinds ∧
        (¬ Operand.Fits kinds s.operands →
          execute options [.operator name] s = .ok { s with operands := [], arrays := [] }) ∧
        (Operand.Fits kinds s.operands → ∀ below : Operand.Stack K,
          execute options [.operator name]
              { s with operands := s.operands.take kinds.length ++ below } =
            execute options [.operator name] s)) ∧
    (Operator.ofName? name = none →
      execute options [.operator name] s = .ok { s with operands := [], arrays := [] }) := by
  refine ⟨?_, ?_⟩
  · intro op hop hfixed
    obtain ⟨kinds, hkinds⟩ := Operator.exists_signature hop hfixed
    refine ⟨kinds, hkinds, ?_, ?_⟩
    · intro hargs
      rw [execute_singleton]
      exact step_of_not_fits _ hop hkinds hargs
    · intro hargs below
      have htake : (s.operands.take kinds.length ++ below).take kinds.length =
          s.operands.take kinds.length :=
        List.take_left' (List.length_take_of_le hargs.length_le)
      rw [execute_singleton, execute_singleton]
      exact step_eq_of_take _ hop hkinds rfl htake
  · intro hunknown
    rw [execute_singleton]
    exact step_operator_none _ options hunknown s

/-- With `/F (F) 12` before it, `Tf` finds a size without a name. -/
theorem execute_signature_unnamedFont :
    let s : Interpreter ℚ :=
      { Interpreter.ofPage .empty .standard with operands := [.number 12, .string [70], .name "F"] }
    execute .standard [.operator "Tf"] s = .ok { s with operands := [], arrays := [] } ∧
    execute .standard [.operator "w"] { s with operands := [.number 12] } =
      execute .standard [.operator "w"] s ∧
    execute .standard [.operator "BDC"] s = .ok { s with operands := [], arrays := [] } := by
  intro s
  refine ⟨?_, ?_, ?_⟩
  · obtain ⟨kinds, hkinds, hunfit, -⟩ :=
      (execute_signature .standard s "Tf").1 .font rfl (by decide)
    cases hkinds
    exact hunfit (by decide)
  · obtain ⟨kinds, hkinds, -, hfit⟩ :=
      (execute_signature .standard s "w").1 .lineWidth rfl (by decide)
    cases hkinds
    exact hfit (by decide) []
  · exact (execute_signature .standard s "BDC").2 rfl

end Interpreter
end ContentStream
