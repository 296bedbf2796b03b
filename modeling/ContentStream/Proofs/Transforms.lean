import Mathlib
import ContentStream.Geometry
import ContentStream.Proofs.ExactArithmetic

set_option autoImplicit false

namespace ContentStream.Transform
variable {K : Type} [ExactField K]

@[simp] theorem apply_compose (m n : Transform K) (p : Point K) :
    (m.compose n).apply p = n.apply (m.apply p) := by
  simp only [apply, compose, Point.mk.injEq]
  constructor <;> ring

theorem compose_assoc (m n p : Transform K) :
    (m.compose n).compose p = m.compose (n.compose p) := by
  simp only [compose, mk.injEq]
  refine ⟨?_, ?_, ?_, ?_, ?_, ?_⟩ <;> ring

@[simp] theorem identity_compose (m : Transform K) : identity.compose m = m := by
  simp [compose, identity]

@[simp] theorem compose_identity (m : Transform K) : m.compose identity = m := by
  simp [compose, identity]

end ContentStream.Transform
