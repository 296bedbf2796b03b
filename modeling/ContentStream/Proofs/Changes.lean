import Mathlib
import ContentStream.Proofs.Effects

set_option autoImplicit false

namespace ContentStream.Interpreter
variable {K : Type} [Scalar K]

inductive Changes : Interpreter K → Interpreter K → Prop
  | refl (s : Interpreter K) : Changes s s
  | trans {s t u : Interpreter K} (h : Changes s t) (h' : Changes t u) : Changes s u
  | state (f : GraphicsState K → GraphicsState K) (s : Interpreter K) : Changes s (s.modifyState f)
  | path (p : Array (Segment K)) (s : Interpreter K) : Changes s { s with path := p }
  | text (t : TextObject K) (s : Interpreter K) : Changes s { s with text := t }
  | emit (e : Element K) (h : ∀ i, e ≠ .image i) (s : Interpreter K) : Changes s (s.emit e)

namespace Changes
variable {s t : Interpreter K}

theorem operands (h : Changes s t) : t.operands = s.operands := by
  induction h with
  | trans _ _ ih ih' => exact ih'.trans ih
  | _ => rfl

theorem arrays (h : Changes s t) : t.arrays = s.arrays := by
  induction h with
  | trans _ _ ih ih' => exact ih'.trans ih
  | _ => rfl

theorem saved (h : Changes s t) : t.stack.saved = s.stack.saved := by
  induction h with
  | trans _ _ ih ih' => exact ih'.trans ih
  | _ => rfl

end Changes

theorem Effect.changes {options : Options K} {s t : Interpreter K} (h : Effect options s t) :
    Changes s t := by
  induction h with
  | refl s => exact .refl s
  | trans _ _ ih ih' => exact ih.trans ih'
  | state | clip | extGState | unmask | mask => exact .state _ _
  | path p s => exact .path p s
  | text t s => exact .text t s
  | paint e s _ himage => exact .emit e himage s

theorem endOpenText_changes (s : Interpreter K) : Changes s s.endOpenText := by
  have h : Effect .standard s s.endOpenText := .endOpenText s
  exact h.changes

theorem apply_changes (options : Options K) (op : Operator) (args : Operand.Stack K)
    (s : Interpreter K) (hsave : op ≠ .save) (hrestore : op ≠ .restore) :
    Changes s (s.apply options op args) :=
  (apply_effect options op args s hsave hrestore).changes

end ContentStream.Interpreter
