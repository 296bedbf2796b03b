import Mathlib
import ContentStream.State

set_option autoImplicit false

namespace ContentStream.StateStack
variable {K : Type}

def states (s : StateStack K) : List (GraphicsState K) := s.current :: s.saved

theorem states_length (s : StateStack K) : s.states.length = s.depth := rfl

theorem states_injective {s t : StateStack K} (h : s.states = t.states) : s = t := by
  cases s
  cases t
  obtain ⟨rfl, rfl⟩ := List.cons.inj h
  rfl

@[simp] theorem saved_push (s : StateStack K) : s.push.saved = s.states := rfl

theorem saved_pop (s : StateStack K) : s.pop.saved = s.saved.tail := by
  obtain ⟨saved, current⟩ := s
  cases saved <;> rfl

theorem states_pop_suffix (s : StateStack K) : s.pop.states <:+ s.states := by
  obtain ⟨saved, current⟩ := s
  cases saved with
  | nil => exact List.suffix_refl _
  | cons t saved => exact List.suffix_cons _ _

theorem pop_of_saved {s t : StateStack K} (h : s.saved = t.states) : s.pop = t := by
  obtain ⟨saved, current⟩ := s
  obtain rfl : saved = t.states := h
  rfl

theorem states_unwind (depth : Nat) (hd : 0 < depth) (saved : List (GraphicsState K))
    (current : GraphicsState K) :
    (unwind depth saved current).states =
      (current :: saved).drop (saved.length + 1 - depth) := by
  induction saved generalizing current with
  | nil =>
    have h : [current].length - depth = 0 := by simp only [List.length_singleton]; omega
    exact (congrArg (List.drop · [current]) h).symm
  | cons t saved ih =>
    rw [unwind]
    split
    · have h : (t :: saved).length + 1 - depth = (saved.length + 1 - depth) + 1 := by
        simp only [List.length_cons]
        omega
      rw [ih, h, List.drop_succ_cons]
    · have h : (t :: saved).length + 1 - depth = 0 := by
        simp only [List.length_cons]
        omega
      rw [h, List.drop_zero]
      rfl

theorem states_popTo (depth : Nat) (hd : 0 < depth) (s : StateStack K) :
    (s.popTo depth).states = s.states.drop (s.depth - depth) :=
  states_unwind depth hd s.saved s.current

theorem depth_popTo_le (depth : Nat) (hd : 0 < depth) (s : StateStack K) :
    (s.popTo depth).depth ≤ depth := by
  rw [← states_length, states_popTo depth hd, List.length_drop, states_length]
  omega

/-- Going back to the depth of `t` restores `t` exactly if its states are the lowest ones. -/
theorem popTo_eq_iff (s t : StateStack K) : s.popTo t.depth = t ↔ t.states <:+ s.states := by
  have hs : (s.popTo t.depth).states = s.states.drop (s.states.length - t.states.length) :=
    states_popTo t.depth (Nat.succ_pos _) s
  rw [List.suffix_iff_eq_drop, ← hs]
  exact ⟨fun h => congrArg states h.symm, fun h => states_injective h.symm⟩

end ContentStream.StateStack
