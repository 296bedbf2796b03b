import Mathlib
import ContentStream.Proofs.ExactArithmetic
import ContentStream.Proofs.Execution
import ContentStream.Proofs.ResourceTree
import ContentStream.Proofs.StateStack

set_option autoImplicit false

namespace ContentStream
variable {K : Type}

/-- The number of states that content holds saved after a token, if it holds `n` before it; none
where the token restores a state that the content has not saved. -/
def ownSaves? (n : Nat) : Token K → Option Nat
  | .operator name =>
    if name = "q" then some (n + 1)
    else if name = "Q" then if n = 0 then none else some (n - 1)
    else some n
  | _ => some n

def restoresOwn (ts : List (Token K)) : Bool := (ts.foldlM ownSaves? 0).isSome

theorem ownSaves?_operand {t : Token K} (h : t.isOperator = false) (n : Nat) :
    ownSaves? n t = some n := by
  cases t with
  | operator name => exact absurd h (by simp [Token.isOperator])
  | _ => rfl

theorem ownSaves?_other {name : String} (hsave : name ≠ "q") (hrestore : name ≠ "Q") (n : Nat) :
    ownSaves? n (.operator name : Token K) = some n := by
  simp only [ownSaves?, if_neg hsave, if_neg hrestore]

theorem ownSaves?_restore {n m : Nat} (h : ownSaves? n (.operator "Q" : Token K) = some m) :
    n = m + 1 := by
  cases n with
  | zero => simp [ownSaves?] at h
  | succ n => simpa [ownSaves?] using h

namespace Interpreter

def LiesBelow (base : List (GraphicsState K)) (n : Nat) (s : Interpreter K) : Prop :=
  base <:+ s.stack.saved.drop n

theorem read_stack (t : Token K) (s : Interpreter K) : (s.read t).stack = s.stack := by
  rw [read_frame]

variable [Scalar K] {options : Options K}

theorem endOpenText_stack (s : Interpreter K) : s.endOpenText.stack = s.stack := by
  unfold endOpenText endText
  dsimp only
  split
  · split <;> rfl
  · rfl

theorem afterForm_stack (s : Interpreter K) (r : Outcome K) :
    (s.afterForm r).state.stack = r.state.stack.popTo s.stack.depth := by
  have hleave : (s.leaveForm r.state).stack = r.state.stack.popTo s.stack.depth := by
    change r.state.endOpenText.stack.popTo s.stack.depth = _
    rw [endOpenText_stack]
  unfold afterForm
  split <;> exact hleave

theorem afterForm_text (s : Interpreter K) (r : Outcome K) :
    (s.afterForm r).state.text = s.text := by
  unfold afterForm
  split <;> rfl

theorem afterForm_path (s : Interpreter K) (r : Outcome K) :
    (s.afterForm r).state.path = s.path := by
  unfold afterForm
  split <;> rfl

theorem afterForm_stack_eq_iff (s : Interpreter K) (r : Outcome K) :
    (s.afterForm r).state.stack = s.stack ↔ s.stack.states <:+ r.state.stack.states := by
  rw [afterForm_stack]
  exact StateStack.popTo_eq_iff r.state.stack s.stack

theorem Stepped.liesBelow {run : Run K} {s : Interpreter K} {t : Token K} {r : Outcome K}
    (h : Stepped run options s t r)
    (hform : ∀ name form, DrawsForm options s name form →
      (s.cleared.afterForm
        (run (tokenize form.content) (s.cleared.enterForm name form))).state.stack = s.stack)
    {base : List (GraphicsState K)} {n m : Nat} (hm : ownSaves? n t = some m)
    (hs : LiesBelow base n s) : LiesBelow base m r.state := by
  have hkept : ∀ u : Interpreter K, u.stack.saved = s.stack.saved → n = m →
      LiesBelow base m u := by
    rintro u hu rfl
    unfold LiesBelow
    rw [hu]
    exact hs
  cases h with
  | operand ht =>
    have hn : n = m := Option.some.inj ((ownSaves?_operand ht n).symm.trans hm)
    exact hkept _ (congrArg StateStack.saved (read_stack t s)) hn
  | save =>
    obtain rfl : n + 1 = m := by simpa [ownSaves?] using hm
    change base <:+ s.stack.push.saved.drop (n + 1)
    rw [StateStack.saved_push]
    exact hs
  | restore =>
    obtain rfl := ownSaves?_restore hm
    change base <:+ s.stack.pop.saved.drop m
    rw [StateStack.saved_pop, List.drop_tail]
    exact hs
  | plain hchanges hsave hrestore =>
    have hn : n = m := Option.some.inj ((ownSaves?_other hsave hrestore n).symm.trans hm)
    exact hkept _ hchanges.saved hn
  | fatal hchanges _ =>
    have hn : n = m := by simpa [ownSaves?] using hm
    exact hkept _ hchanges.saved hn
  | image _ =>
    have hn : n = m := by simpa [ownSaves?] using hm
    exact hkept _ rfl hn
  | form hdraws =>
    have hn : n = m := by simpa [ownSaves?] using hm
    exact hkept _ (congrArg StateStack.saved (hform _ _ hdraws)) hn

/-- Content that restores only its own states leaves those of its caller where they are, if the
forms that it draws do as well. -/
theorem execute_liesBelow (ts : List (Token K)) (s : Interpreter K)
    (base : List (GraphicsState K)) (n : Nat) (hs : LiesBelow base n s)
    (hts : (ts.foldlM ownSaves? n).isSome)
    (hforms : s.resources.AllForms fun f => restoresOwn (tokenize (K := K) f.content)) :
    base <:+ (execute options ts s).state.stack.saved := by
  induction ts, s using execute_induction options generalizing base n with
  | nil s =>
    rw [execute_nil]
    exact hs.trans (List.drop_suffix n _)
  | cons t ts s ihform ihnext =>
    have hstep := stepped (execute options) options t s
    cases hm : ownSaves? n t with
    | none => simp [List.foldlM_cons, hm] at hts
    | some m =>
      have hbelow : LiesBelow base m (s.step (execute options) options t).state := by
        refine hstep.liesBelow ?_ hm hs
        intro name form hdraws
        refine (afterForm_stack_eq_iff _ _).2 ?_
        -- The content begins with all states of its caller saved and none of its own.
        have hinside := ihform name form hdraws s.stack.states 0 (List.suffix_refl _)
          (hforms.entry hdraws.entry) (hforms.inside hdraws.entry)
        exact hinside.trans (List.suffix_cons _ _)
      have hsame := step_sameContext options t s
      rw [execute_cons]
      dsimp only
      split
      · exact hbelow.trans (List.drop_suffix m _)
      · refine ihnext base m hbelow ?_ ?_
        · simpa [List.foldlM_cons, hm] using hts
        · rw [hsame.resources]
          exact hforms

/-- The stack after a form is that of the caller exactly if the content, where it is drawn at all,
has left the caller's states at the bottom. It does so if no content that can be drawn here restores
states that it has not saved. In no case is the stack deeper than it was. -/
theorem execute_form_stack (options : Options K) (s : Interpreter K) (name : String)
    (form : FormXObject K) (hname : (Operand.popName s.operands).1 = some name)
    (hform : s.resources.xObject? name = some (.form form)) :
    let inside := execute options (tokenize form.content) (s.cleared.enterForm name form)
    let after := execute options [.operator "Do"] s
    (after.state.stack = s.stack ↔
      (DrawsForm options s name form → s.stack.states <:+ inside.state.stack.states)) ∧
    (restoresOwn (tokenize (K := K) form.content) = true →
      ((form.resources.getD s.resources).AllForms fun f =>
        restoresOwn (tokenize (K := K) f.content)) → after.state.stack = s.stack) ∧
    after.state.stack.depth ≤ s.stack.depth := by
  intro inside after
  by_cases hdraws : DrawsForm options s name form
  · have hafter : after = s.cleared.afterForm inside :=
      (execute_singleton options _ s).trans (step_form hdraws)
    have hiff : after.state.stack = s.stack ↔ s.stack.states <:+ inside.state.stack.states := by
      rw [hafter]
      exact afterForm_stack_eq_iff s.cleared inside
    refine ⟨?_, ?_, ?_⟩
    · rw [hiff]
      exact ⟨fun h _ => h, fun h => h hdraws⟩
    · intro hcontent hforms
      have hbelow : s.stack.states <:+ inside.state.stack.saved :=
        execute_liesBelow _ _ s.stack.states 0 (List.suffix_refl _) hcontent hforms
      exact hiff.2 (hbelow.trans (List.suffix_cons _ _))
    · rw [hafter, afterForm_stack]
      exact StateStack.depth_popTo_le _ (Nat.succ_pos _) _
  · have hafter : after.state.stack = s.stack := by
      have hstep := (execute_singleton options (.operator "Do") s).trans
        (step_form_skipped hname hform hdraws)
      change (execute options [.operator "Do"] s).state.stack = s.stack
      rw [hstep]
      rfl
    refine ⟨?_, fun _ _ => hafter, ?_⟩
    · exact ⟨fun _ h => absurd h hdraws, fun _ => hafter⟩
    · rw [hafter]

def formWith (content : String) : FormXObject ℚ :=
  ⟨⟨0, 0, 10, 10⟩, .identity, none, Utf8.encode content⟩

def beforeForm (content : String) : Interpreter ℚ :=
  let page := Interpreter.ofPage
    { Resources.empty with xObjects := [("F", .form (formWith content))] } .standard
  (execute .standard [.operator "q", .number 3, .operator "w", .name "F"] page).state

theorem execute_form_stack_unrestoredSave :
    (execute .standard [.operator "Do"] (beforeForm "q 5 w")).state.stack =
      (beforeForm "q 5 w").stack := by
  refine (execute_form_stack .standard (beforeForm "q 5 w") "F" (formWith "q 5 w") ?_ ?_).1.2 ?_
  · decide +kernel
  · rfl
  · intro _
    decide +kernel

theorem execute_form_stack_surplusRestore :
    (Operand.popName (beforeForm "Q 5 w").operands).1 = some "F" ∧
    (beforeForm "Q 5 w").resources.xObject? "F" = some (.form (formWith "Q 5 w")) ∧
    (execute .standard [.operator "Do"] (beforeForm "Q 5 w")).state.stack ≠
      (beforeForm "Q 5 w").stack := by
  refine ⟨?_, rfl, ?_⟩
  · decide +kernel
  · decide +kernel

end Interpreter
end ContentStream
