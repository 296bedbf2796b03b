import Mathlib
import ContentStream.Proofs.ShownStrings

set_option autoImplicit false

namespace ContentStream
variable {K : Type}

/-- Text that is painted in the two states has the same colours, alphas, rendering mode, clip and
soft mask. -/
structure GraphicsState.PaintsAlike (g h : GraphicsState K) : Prop extends g.SameCoverage h where
  fillColor : h.fillColor = g.fillColor
  fillPattern : h.fillPattern = g.fillPattern
  strokeColor : h.strokeColor = g.strokeColor
  strokePattern : h.strokePattern = g.strokePattern
  renderMode : h.text.renderMode = g.text.renderMode

namespace GraphicsState.PaintsAlike
variable {g h i : GraphicsState K}

theorem refl (g : GraphicsState K) : g.PaintsAlike g :=
  ⟨⟨rfl, rfl, rfl, rfl, rfl, rfl⟩, rfl, rfl, rfl, rfl, rfl⟩

theorem of_eq (heq : h = g) : g.PaintsAlike h := by
  rw [heq]
  exact refl g

theorem trans (h₁ : g.PaintsAlike h) (h₂ : h.PaintsAlike i) : g.PaintsAlike i where
  clipBBox := h₂.clipBBox.trans h₁.clipBBox
  clipMask := h₂.clipMask.trans h₁.clipMask
  softMask := h₂.softMask.trans h₁.softMask
  softMaskAlpha := h₂.softMaskAlpha.trans h₁.softMaskAlpha
  fillAlpha := h₂.fillAlpha.trans h₁.fillAlpha
  strokeAlpha := h₂.strokeAlpha.trans h₁.strokeAlpha
  fillColor := h₂.fillColor.trans h₁.fillColor
  fillPattern := h₂.fillPattern.trans h₁.fillPattern
  strokeColor := h₂.strokeColor.trans h₁.strokeColor
  strokePattern := h₂.strokePattern.trans h₁.strokePattern
  renderMode := h₂.renderMode.trans h₁.renderMode

end GraphicsState.PaintsAlike

structure TextObject.Continues (t u : TextObject K) : Prop where
  isOpen : u.isOpen = t.isOpen
  runs : t.runs.toList <+: u.runs.toList

theorem TextObject.Continues.of_eq {t u : TextObject K} (h : u = t) : t.Continues u := by
  rw [h]
  exact ⟨rfl, List.prefix_refl _⟩

theorem TextObject.Continues.trans {t u v : TextObject K} (h : t.Continues u)
    (h' : u.Continues v) : t.Continues v :=
  ⟨h'.isOpen.trans h.isOpen, h.runs.trans h'.runs⟩

namespace Interpreter
variable [Scalar K] {options : Options K}

theorem paintPath_state (paint : Paint) (rule : FillRule) (close : Bool) (s : Interpreter K) :
    (s.paintPath options paint rule close).state = s.state := by
  cases h : s.path.isEmpty with
  | true => rw [paintPath_empty h]
  | false =>
    rw [paintPath_nonempty h, drawPath_frame]
    rfl

theorem paintShading_state (name : String) (s : Interpreter K) :
    (s.paintShading options name).state = s.state := by
  unfold paintShading
  split
  · rfl
  · dsimp only
    split <;> rfl

theorem endText_state (s : Interpreter K) : s.endText.state = s.state := by
  unfold endText
  dsimp only
  split <;> rfl

/-- A form has a text object of its own and gives that of its caller back. -/
theorem step_continues (run : Run K) (options : Options K) {t : Token K}
    (hbegin : t ≠ .operator "BT") (hend : t ≠ .operator "ET") (s : Interpreter K) :
    s.text.Continues (s.step run options t).state.text := by
  have hperformed := performed run options t s
  generalize s.step run options t = r at hperformed
  cases hperformed with
  | operand _ =>
    change s.text.Continues (s.read t).text
    rw [read_frame]
    exact .of_eq rfl
  | unknown _ | idle | image _ => exact .of_eq rfl
  | @apply name op hop _ _ =>
    have hbegin' : op ≠ .beginText := by
      rintro rfl
      exact hbegin (congrArg _ (Operator.ofName?_inj hop rfl))
    have hend' : op ≠ .endText := by
      rintro rfl
      exact hend (congrArg _ (Operator.ofName?_inj hop rfl))
    obtain ⟨new, hruns, -, -⟩ :=
      (apply_typesets options op s.operands s.cleared).shown hbegin' hend'
    refine ⟨(apply_footprint options op s.operands s.cleared).isOpen hbegin' hend', ?_⟩
    exact ⟨new, hruns.symm⟩
  | extGState _ hframe =>
    rw [hframe]
    exact .of_eq rfl
  | form _ => exact .of_eq (afterForm_text s.cleared _)

end Interpreter
end ContentStream
