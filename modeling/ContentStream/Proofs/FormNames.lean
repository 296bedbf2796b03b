import Mathlib
import ContentStream.Proofs.Footprints
import ContentStream.Proofs.OperandScope

set_option autoImplicit false

namespace ContentStream
variable {K : Type}

def Interpreter.withFormStack (names : List String) (s : Interpreter K) : Interpreter K :=
  { s with formStack := names }

def Outcome.withFormStack (names : List String) (r : Outcome K) : Outcome K :=
  { r with state := r.state.withFormStack names }

namespace Interpreter

theorem read_withFormStack (t : Token K) (names : List String) (s : Interpreter K) :
    (s.withFormStack names).read t = (s.read t).withFormStack names := by
  obtain ⟨hoperands, harrays⟩ := read_congr t (s := s.withFormStack names) (u := s) rfl rfl
  rw [read_frame t (s.withFormStack names), hoperands, harrays]
  exact (congrArg (withFormStack names) (read_frame t s)).symm

theorem elim_withFormStack {α : Type} (x : Option α) {names : List String} {s : Interpreter K}
    {f g : α → Interpreter K} (h : ∀ v, g v = (f v).withFormStack names) :
    x.elim (s.withFormStack names) g = (x.elim s f).withFormStack names := by
  cases x with
  | none => rfl
  | some v => exact h v

variable [Scalar K] {options : Options K} (names : List String)

theorem drawPath_withFormStack (segments : List (Segment K)) (paint : Paint) (rule : FillRule)
    (s : Interpreter K) : (s.withFormStack names).drawPath options segments paint rule =
      (s.drawPath options segments paint rule).withFormStack names := by
  unfold drawPath
  dsimp only [withFormStack, state, rasterizePattern?]
  split
  · split <;> rfl
  · rfl

theorem paintPath_withFormStack (paint : Paint) (rule : FillRule) (close : Bool)
    (s : Interpreter K) : (s.withFormStack names).paintPath options paint rule close =
      (s.paintPath options paint rule close).withFormStack names := by
  cases hempty : s.path.isEmpty with
  | true => rw [paintPath_empty hempty, paintPath_empty (s := s.withFormStack names) hempty]
  | false =>
    rw [paintPath_nonempty hempty, paintPath_nonempty (s := s.withFormStack names) hempty]
    exact drawPath_withFormStack names _ paint rule { s with path := #[] }

theorem clipPath_withFormStack (rule : FillRule) (s : Interpreter K) :
    (s.withFormStack names).clipPath options rule =
      (s.clipPath options rule).withFormStack names := by
  unfold clipPath
  change (if s.path.isEmpty then s.withFormStack names else _) = _
  cases s.path.isEmpty <;> rfl

theorem paintShading_withFormStack (name : String) (s : Interpreter K) :
    (s.withFormStack names).paintShading options name =
      (s.paintShading options name).withFormStack names := by
  unfold paintShading
  dsimp only [withFormStack, state]
  split
  · rfl
  · split <;> rfl

theorem endText_withFormStack (s : Interpreter K) :
    (s.withFormStack names).endText = s.endText.withFormStack names := by
  unfold endText
  dsimp only [withFormStack]
  split <;> rfl

theorem apply_withFormStack (op : Operator) (args : Operand.Stack K) (s : Interpreter K) :
    (s.withFormStack names).apply options op args =
      (s.apply options op args).withFormStack names := by
  cases op <;> unfold apply <;> dsimp only
  case stroke | closeStroke | fill | fillObsolete | fillEvenOdd | fillStroke
      | fillStrokeEvenOdd | closeFillStroke | closeFillStrokeEvenOdd | endPath =>
    exact paintPath_withFormStack ..
  case clip | clipEvenOdd => exact clipPath_withFormStack ..
  case endText => exact endText_withFormStack names s
  case paintShading => exact elim_withFormStack _ fun _ => paintShading_withFormStack ..
  case lineWidth | lineCap | lineJoin | miterLimit | renderingIntent | flatness | charSpacing
      | wordSpacing | horizontalScaling | leading | renderMode | rise | strokeGray | fillGray
      | strokeColorSpace | fillColorSpace | showText | showTextArray | nextLineShowText =>
    exact elim_withFormStack _ fun _ => rfl
  case dash | font =>
    split
    · exact elim_withFormStack _ fun _ => rfl
    · rfl
  case nextLineShowTextSpaced =>
    split
    · split <;> rfl
    · rfl
  case concat | moveTo | lineTo | curveTo | curveToV | curveToY | rect | strokeRgb | fillRgb
      | strokeCmyk | fillCmyk | moveText | moveTextSetLeading | textMatrix =>
    split <;> rfl
  all_goals rfl

theorem setSoftMask_withFormStack (run : Run K) (g : SoftMaskGroup K) (s : Interpreter K) :
    (s.withFormStack names).setSoftMask run options g =
      (s.setSoftMask run options g).withFormStack names := by
  unfold setSoftMask
  by_cases hdeep : options.maxMaskDepth ≤ s.maskDepth
  · have hdeep' : options.maxMaskDepth ≤ (s.withFormStack names).maskDepth := hdeep
    rw [if_pos hdeep', if_pos hdeep]
    rfl
  · have hdeep' : ¬ options.maxMaskDepth ≤ (s.withFormStack names).maskDepth := hdeep
    rw [if_neg hdeep', if_neg hdeep]
    dsimp only [withFormStack, state]
    -- The group runs in an interpreter of its own, which knows no names.
    cases g.evaluateWith run options s.stack.current.ctm (s.maskDepth + 1) with
    | ok value => rfl
    | error fault =>
      dsimp only
      cases fault.isFatal <;> rfl

theorem setExtGState_withFormStack (run : Run K) (name : String) (s : Interpreter K) :
    (s.withFormStack names).setExtGState run options name =
      (s.setExtGState run options name).withFormStack names := by
  unfold setExtGState
  dsimp only [withFormStack]
  cases s.resources.extGState? name with
  | none => rfl
  | some e =>
    dsimp only
    cases e.softMask with
    | none => rfl
    | some v =>
      cases v with
      | none => rfl
      | group g => exact setSoftMask_withFormStack names run g (s.modifyState (.applyExtGState e))

theorem step_withFormStack (run : Run K) {t : Token K} (ht : t ≠ .operator "Do")
    (s : Interpreter K) :
    (s.withFormStack names).step run options t = (s.step run options t).withFormStack names := by
  cases hoperator : t.isOperator with
  | false =>
    rw [step_operand run options hoperator, step_operand run options hoperator, read_withFormStack]
    rfl
  | true =>
    cases t with
    | operator name =>
      cases hop : Operator.ofName? name with
      | none =>
        rw [step_operator_none run options hop, step_operator_none run options hop]
        rfl
      | some op =>
        have hpaint : op ≠ .paintXObject := by
          rintro rfl
          exact ht (congrArg _ (Operator.ofName?_inj hop rfl))
        by_cases hext : op = .extGState
        · subst hext
          obtain rfl : name = "gs" := Operator.ofName?_inj hop rfl
          rw [step_extGState, step_extGState]
          change (Operand.popName s.operands).1.elim _ _ = _
          cases (Operand.popName s.operands).1 with
          | none => rfl
          | some name => exact setExtGState_withFormStack names run name s.cleared
        · rw [step_apply run options hop hext hpaint, step_apply run options hop hext hpaint]
          exact congrArg Outcome.ok (apply_withFormStack names op s.operands s.cleared)
    | _ => exact absurd hoperator (by simp [Token.isOperator])

theorem execute_withFormStack {ts : List (Token K)} (hts : ∀ t ∈ ts, t ≠ .operator "Do")
    (s : Interpreter K) :
    execute options ts (s.withFormStack names) = (execute options ts s).withFormStack names := by
  induction ts generalizing s with
  | nil =>
    rw [execute_nil, execute_nil]
    rfl
  | cons t ts ih =>
    rw [execute_cons, execute_cons, step_withFormStack names _ (hts t List.mem_cons_self)]
    dsimp only
    change (if (s.step (execute options) options t).fault.isSome then _ else _) = _
    cases (s.step (execute options) options t).fault.isSome with
    | true => rfl
    | false => exact ih (fun t' h => hts t' (List.mem_cons_of_mem _ h)) _

end Interpreter
end ContentStream
