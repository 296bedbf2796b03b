import Mathlib
import ContentStream.Interpreter.Run
import ContentStream.Proofs.ResourceTree
import ContentStream.Proofs.Steps

set_option autoImplicit false

namespace ContentStream.Interpreter
variable {K : Type}

structure SameContext (s t : Interpreter K) : Prop where
  resources : t.resources = s.resources
  maskDepth : t.maskDepth = s.maskDepth
  formStack : t.formStack = s.formStack
  baseCtm : t.baseCtm = s.baseCtm
  elements : s.elements.toList <+: t.elements.toList

namespace SameContext

theorem refl (s : Interpreter K) : SameContext s s := ⟨rfl, rfl, rfl, rfl, List.prefix_refl _⟩

theorem trans {s t u : Interpreter K} (h : SameContext s t) (h' : SameContext t u) :
    SameContext s u where
  resources := h'.resources.trans h.resources
  maskDepth := h'.maskDepth.trans h.maskDepth
  formStack := h'.formStack.trans h.formStack
  baseCtm := h'.baseCtm.trans h.baseCtm
  elements := h.elements.trans h'.elements

end SameContext

variable [Scalar K]

theorem elements_emit (e : Element K) (s : Interpreter K) :
    s.elements.toList <+: (s.emit e).elements.toList := by
  change _ <+: (s.elements.push _).toList
  rw [Array.toList_push]
  exact List.prefix_append _ _

theorem Changes.sameContext {s t : Interpreter K} (h : Changes s t) : SameContext s t := by
  induction h with
  | trans _ _ ih ih' => exact ih.trans ih'
  | emit e _ s => exact ⟨rfl, rfl, rfl, rfl, elements_emit e s⟩
  | _ => exact ⟨rfl, rfl, rfl, rfl, List.prefix_refl _⟩

theorem leaveForm_sameContext (name : String) (form : FormXObject K) {s inside : Interpreter K}
    (h : SameContext (s.enterForm name form) inside) : SameContext s (s.leaveForm inside) := by
  have hend : SameContext (s.enterForm name form) inside.endOpenText :=
    h.trans (endOpenText_changes inside).sameContext
  refine ⟨rfl, hend.maskDepth, ?_, hend.baseCtm, hend.elements⟩
  change inside.endOpenText.formStack.tail = s.formStack
  rw [hend.formStack]
  rfl

theorem Stepped.sameContext {run : Run K} {options : Options K} {s : Interpreter K} {t : Token K}
    {r : Outcome K} (hrun : ∀ ts u, SameContext u (run ts u).state)
    (h : Stepped run options s t r) : SameContext s r.state := by
  have hcleared : SameContext s s.cleared := ⟨rfl, rfl, rfl, rfl, List.prefix_refl _⟩
  cases h with
  | operand _ =>
    change SameContext s (s.read t)
    rw [read_frame]
    exact ⟨rfl, rfl, rfl, rfl, List.prefix_refl _⟩
  | save | restore => exact ⟨rfl, rfl, rfl, rfl, List.prefix_refl _⟩
  | plain hchanges => exact hcleared.trans hchanges.sameContext
  | fatal hchanges => exact hcleared.trans hchanges.sameContext
  | image => exact hcleared.trans ⟨rfl, rfl, rfl, rfl, elements_emit _ _⟩
  | @form name form _ =>
    have hleave := hcleared.trans
      (leaveForm_sameContext name form (hrun (tokenize form.content) _))
    unfold afterForm
    split
    · exact hleave
    · exact ⟨hleave.resources, hleave.maskDepth, hleave.formStack, hleave.baseCtm,
        hleave.elements⟩

theorem executeWith_induction {R : Interpreter K → Interpreter K → Prop} {run : Run K}
    {options : Options K} (hrefl : ∀ s, R s s) (htrans : ∀ s t u, R s t → R t u → R s u)
    (hstep : ∀ t s, R s (s.step run options t).state) (ts : List (Token K))
    (s : Interpreter K) : R s (executeWith run options ts s).state := by
  induction ts generalizing s with
  | nil => exact hrefl s
  | cons t ts ih =>
    simp only [executeWith]
    split
    · exact hstep t s
    · exact htrans _ _ _ (hstep t s) (ih _)

theorem executeWithin_sameContext (options : Options K) (levels : Nat) (ts : List (Token K))
    (s : Interpreter K) : SameContext s (executeWithin options levels ts s).state := by
  induction levels generalizing ts s with
  | zero =>
    exact executeWith_induction .refl (fun _ _ _ => .trans)
      (fun t s => (stepped _ options t s).sameContext fun _ => .refl) ts s
  | succ levels ih =>
    exact executeWith_induction .refl (fun _ _ _ => .trans)
      (fun t s => (stepped _ options t s).sameContext ih) ts s

theorem execute_sameContext (options : Options K) (ts : List (Token K)) (s : Interpreter K) :
    SameContext s (execute options ts s).state :=
  executeWithin_sameContext options _ ts s

theorem step_sameContext (options : Options K) (t : Token K) (s : Interpreter K) :
    SameContext s (s.step (execute options) options t).state :=
  (stepped _ options t s).sameContext (execute_sameContext options)

structure SetsMask (options : Options K) (s : Interpreter K) (g : SoftMaskGroup K) : Prop where
  entry : ∃ name e, (Operand.popName s.operands).1 = some name ∧
    s.resources.extGState? name = some e ∧ e.softMask = some (.group g)
  shallow : s.maskDepth < options.maxMaskDepth

/-- The content that a token interprets, and the interpreter that it is interpreted from. -/
inductive Enters (options : Options K) (s : Interpreter K) :
    Token K → List (Token K) → Interpreter K → Prop
  | form {name : String} {form : FormXObject K} (h : DrawsForm options s name form) :
      Enters options s (.operator "Do") (tokenize form.content) (s.cleared.enterForm name form)
  | group {g : SoftMaskGroup K} (h : SetsMask options s g) :
      Enters options s (.operator "gs") (tokenize g.content)
        (ofGroup g.resources (s.maskDepth + 1))

section Nesting
variable {run run' : Run K} {options : Options K}

/-- How deep content can nest from here with so many masks and forms around each other. -/
def levelsBelow (masks forms : Nat) (s : Interpreter K) : Nat :=
  (masks - s.maskDepth) * (forms + 1) + (forms - s.formStack.length)

omit [Scalar K] in
theorem SameContext.levelsBelow {s t : Interpreter K} (h : SameContext s t) (masks forms : Nat) :
    t.levelsBelow masks forms = s.levelsBelow masks forms := by
  unfold Interpreter.levelsBelow
  rw [h.maskDepth, h.formStack]

namespace Enters
variable {s u : Interpreter K} {t : Token K} {ts : List (Token K)}

theorem maskDepth (h : Enters options s t ts u) :
    u.maskDepth = s.maskDepth ∨ u.maskDepth ≤ options.maxMaskDepth := by
  cases h with
  | form _ => exact .inl rfl
  | group h => exact .inr h.shallow

theorem formStack_length (h : Enters options s t ts u) :
    u.formStack.length ≤ options.maxFormDepth := by
  cases h with
  | form h => exact h.shallow
  | group _ => exact Nat.zero_le _

theorem tables_subset (h : Enters options s t ts u) :
    u.resources.tables u.maskDepth ⊆ s.resources.tables s.maskDepth := by
  cases h with
  | @form name form h =>
    change (form.resources.getD s.resources).tables s.maskDepth ⊆ _
    cases hown : form.resources with
    | none => exact List.Subset.refl _
    | some own => exact Resources.tables_subset_of_form h.entry hown _
  | group h =>
    obtain ⟨name, e, -, hentry, hgroup⟩ := h.entry
    exact Resources.tables_subset_of_group hentry hgroup _

theorem levelsBelow_lt {masks forms : Nat} (h : Enters options s t ts u)
    (hmasks : u.maskDepth = s.maskDepth ∨ u.maskDepth ≤ masks)
    (hforms : u.formStack.length ≤ forms) :
    u.levelsBelow masks forms < s.levelsBelow masks forms := by
  cases h with
  | form _ =>
    have hroom : s.formStack.length + 1 ≤ forms := hforms
    change (masks - s.maskDepth) * (forms + 1) + (forms - (s.formStack.length + 1)) < _
    unfold levelsBelow
    omega
  | group _ =>
    have hroom : s.maskDepth + 1 ≤ masks := hmasks.resolve_left (Nat.succ_ne_self _)
    change (masks - (s.maskDepth + 1)) * (forms + 1) + (forms - 0) < _
    unfold levelsBelow
    obtain ⟨k, rfl⟩ := Nat.exists_eq_add_of_le hroom
    have hleft : s.maskDepth + 1 + k - s.maskDepth = k + 1 := by omega
    have hright : s.maskDepth + 1 + k - (s.maskDepth + 1) = k := by omega
    rw [hleft, hright, Nat.succ_mul]
    omega

theorem nestingBound_lt (h : Enters options s t ts u) :
    u.nestingBound options < s.nestingBound options :=
  h.levelsBelow_lt h.maskDepth h.formStack_length

end Enters

theorem setSoftMask_congr (g : SoftMaskGroup K) (s : Interpreter K)
    (h : s.maskDepth < options.maxMaskDepth →
      run (tokenize g.content) (ofGroup g.resources (s.maskDepth + 1)) =
        run' (tokenize g.content) (ofGroup g.resources (s.maskDepth + 1))) :
    s.setSoftMask run options g = s.setSoftMask run' options g := by
  unfold setSoftMask
  split
  · rfl
  · rename_i hdepth
    have hrun := h (Nat.lt_of_not_le hdepth)
    simp only [SoftMaskGroup.evaluateWith, hrun]

theorem step_paintXObject_congr (s : Interpreter K)
    (h : ∀ name form, DrawsForm options s name form →
      run (tokenize form.content) (s.cleared.enterForm name form) =
        run' (tokenize form.content) (s.cleared.enterForm name form)) :
    s.step run options (.operator "Do") = s.step run' options (.operator "Do") := by
  cases hname : (Operand.popName s.operands).1 with
  | none => rw [step_paintXObject_none hname, step_paintXObject_none hname]
  | some name =>
    cases hentry : s.resources.xObject? name with
    | none => rw [step_unknownXObject hname hentry, step_unknownXObject hname hentry]
    | some x =>
      cases x with
      | image i => rw [step_image ⟨hname, hentry⟩, step_image ⟨hname, hentry⟩]
      | form form =>
        by_cases hdraws : DrawsForm options s name form
        · rw [step_form hdraws, step_form hdraws, h name form hdraws]
        · rw [step_form_skipped hname hentry hdraws, step_form_skipped hname hentry hdraws]

theorem step_extGState_congr (s : Interpreter K)
    (h : ∀ g, SetsMask options s g →
      run (tokenize g.content) (ofGroup g.resources (s.maskDepth + 1)) =
        run' (tokenize g.content) (ofGroup g.resources (s.maskDepth + 1))) :
    s.step run options (.operator "gs") = s.step run' options (.operator "gs") := by
  rw [step_extGState, step_extGState]
  cases hname : (Operand.popName s.operands).1 with
  | none => rfl
  | some name =>
    change s.cleared.setExtGState run options name = s.cleared.setExtGState run' options name
    unfold setExtGState
    have hresources : s.cleared.resources = s.resources := rfl
    rw [hresources]
    cases hentry : s.resources.extGState? name with
    | none => rfl
    | some e =>
      dsimp only
      cases hmask : e.softMask with
      | none => rfl
      | some mask =>
        cases mask with
        | none => rfl
        | group g =>
          refine setSoftMask_congr g _ fun hshallow => h g ⟨?_, hshallow⟩
          exact ⟨name, e, hname, hentry, hmask⟩

theorem step_congr (t : Token K) (s : Interpreter K)
    (h : ∀ ts u, Enters options s t ts u → run ts u = run' ts u) :
    s.step run options t = s.step run' options t := by
  have hperformed := performed run options t s
  generalize hr : s.step run options t = r at hperformed
  cases hperformed with
  | operand ht => exact (step_operand run' options ht s).symm
  | unknown hop => exact (step_operator_none run' options hop s).symm
  | apply hop hext hpaint => exact (step_apply run' options hop hext hpaint s).symm
  | extGState _ _ =>
    rw [← hr]
    exact step_extGState_congr s fun g hsets => h _ _ (.group hsets)
  | idle | image _ | form _ =>
    rw [← hr]
    exact step_paintXObject_congr s fun name form hdraws => h _ _ (.form hdraws)

theorem executeWith_congr (b : Nat) (hrun' : ∀ ts u, SameContext u (run' ts u).state)
    (h : ∀ ts u, u.nestingBound options < b → run ts u = run' ts u) (ts : List (Token K))
    (s : Interpreter K) (hs : s.nestingBound options ≤ b) :
    executeWith run options ts s = executeWith run' options ts s := by
  induction ts generalizing s with
  | nil => rfl
  | cons t ts ih =>
    have hstep : s.step run options t = s.step run' options t :=
      step_congr t s fun ts u hu => h ts u (hu.nestingBound_lt.trans_le hs)
    simp only [executeWith, hstep]
    split
    · rfl
    · have hnext : SameContext s (s.step run' options t).state :=
        (stepped run' options t s).sameContext hrun'
      exact ih _ ((hnext.levelsBelow _ _).trans_le hs)

end Nesting

/-- One level more than the nesting bound makes no difference, so no number of levels does. -/
theorem executeWithin_succ (options : Options K) (levels : Nat) (ts : List (Token K))
    (s : Interpreter K) (h : s.nestingBound options ≤ levels) :
    executeWithin options (levels + 1) ts s = executeWithin options levels ts s := by
  induction levels generalizing ts s with
  | zero =>
    refine executeWith_congr 0 (fun _ => .refl) ?_ ts s h
    intro ts u hu
    exact absurd hu (Nat.not_lt_zero _)
  | succ levels ih =>
    refine executeWith_congr (levels + 1) (executeWithin_sameContext options levels) ?_ ts s h
    intro ts u hu
    exact ih ts u (Nat.le_of_lt_succ hu)

theorem executeWithin_eq_execute (options : Options K) (levels : Nat) (ts : List (Token K))
    (s : Interpreter K) (h : s.nestingBound options ≤ levels) :
    executeWithin options levels ts s = execute options ts s := by
  induction levels, h using Nat.le_induction with
  | base => rfl
  | succ levels h ih => rw [executeWithin_succ options levels ts s h, ih]

theorem execute_eq (options : Options K) (ts : List (Token K)) (s : Interpreter K) :
    execute options ts s = executeWith (execute options) options ts s := by
  rw [← executeWithin_eq_execute options _ ts s (Nat.le_succ _)]
  refine executeWith_congr (s.nestingBound options) (execute_sameContext options) ?_ ts s le_rfl
  intro ts u hu
  exact executeWithin_eq_execute options _ ts u hu.le

@[simp] theorem execute_nil (options : Options K) (s : Interpreter K) :
    execute options [] s = .ok s := by
  rw [execute_eq]
  rfl

theorem execute_cons (options : Options K) (t : Token K) (ts : List (Token K))
    (s : Interpreter K) :
    execute options (t :: ts) s =
      let r := s.step (execute options) options t
      if r.fault.isSome then r else execute options ts r.state := by
  rw [execute_eq]
  simp only [executeWith, ← execute_eq]

theorem execute_cons_ok {options : Options K} {t : Token K} {s u : Interpreter K}
    (h : s.step (execute options) options t = .ok u) (ts : List (Token K)) :
    execute options (t :: ts) s = execute options ts u := by
  rw [execute_cons, h]
  rfl

theorem execute_cons_fault {options : Options K} {t : Token K} {s : Interpreter K}
    (h : (s.step (execute options) options t).fault.isSome) (ts : List (Token K)) :
    execute options (t :: ts) s = s.step (execute options) options t := by
  rw [execute_cons]
  exact if_pos h

theorem execute_cons_unfaulted {options : Options K} {t : Token K} {ts : List (Token K)}
    {s : Interpreter K} (h : (execute options (t :: ts) s).fault = none) :
    (s.step (execute options) options t).fault = none ∧
      execute options (t :: ts) s =
        execute options ts (s.step (execute options) options t).state := by
  cases hfault : (s.step (execute options) options t).fault with
  | none => exact ⟨rfl, execute_cons_ok (Outcome.eq_ok hfault) ts⟩
  | some fault =>
    rw [execute_cons_fault (by rw [hfault]; rfl), hfault] at h
    exact absurd h (by simp)

theorem execute_singleton (options : Options K) (t : Token K) (s : Interpreter K) :
    execute options [t] s = s.step (execute options) options t := by
  rw [execute_cons]
  generalize s.step (execute options) options t = r
  obtain ⟨u, fault⟩ := r
  cases fault with
  | none => exact execute_nil options u
  | some fault => rfl

theorem execute_append (options : Options K) (ts us : List (Token K)) (s : Interpreter K) :
    execute options (ts ++ us) s =
      let r := execute options ts s
      if r.fault.isSome then r else execute options us r.state := by
  induction ts generalizing s with
  | nil => rw [execute_nil]; rfl
  | cons t ts ih =>
    rw [List.cons_append, execute_cons, execute_cons]
    dsimp only
    split
    · rfl
    · exact ih _

theorem afterForm_fault {s : Interpreter K} {r : Outcome K} {fault : Fault K}
    (h : (s.afterForm r).fault = some fault) : r.fault = some fault ∧ fault.isFatal = true := by
  unfold afterForm at h
  split at h
  · rename_i hfatal
    have hr : r.fault = some fault := h
    rw [hr] at hfatal
    exact ⟨hr, hfatal⟩
  · exact absurd h (by simp [Outcome.ok])

theorem Stepped.isFatal {run : Run K} {options : Options K} {s : Interpreter K} {t : Token K}
    {r : Outcome K} (h : Stepped run options s t r) {fault : Fault K} (hr : r.fault = some fault) :
    fault.isFatal = true := by
  cases h with
  | fatal _ hfault =>
    obtain rfl := Option.some.inj hr
    exact hfault
  | form _ => exact (afterForm_fault hr).2
  | _ => exact absurd hr (by simp [Outcome.ok])

theorem execute_isFatal {options : Options K} {ts : List (Token K)} {s : Interpreter K}
    {fault : Fault K} (h : (execute options ts s).fault = some fault) : fault.isFatal = true := by
  induction ts generalizing s with
  | nil => exact absurd h (by simp [Outcome.ok])
  | cons t ts ih =>
    rw [execute_cons] at h
    dsimp only at h
    split at h
    · exact (stepped _ options t s).isFatal h
    · exact ih h

theorem fault_of_afterForm {options : Options K} {ts : List (Token K)} {s u : Interpreter K}
    (h : (s.afterForm (execute options ts u)).fault = none) :
    (execute options ts u).fault = none := by
  cases hr : (execute options ts u).fault with
  | none => rfl
  | some fault =>
    have hany : (execute options ts u).fault.any Fault.isFatal = true := by
      rw [hr]
      exact execute_isFatal hr
    unfold afterForm at h
    rw [if_pos hany] at h
    exact hr.symm.trans h

/-- An execution goes from token to token, and where a token enters other content the nesting bound
is less. -/
theorem execute_nestingBound_induction (options : Options K)
    {P : List (Token K) → Interpreter K → Prop} (nil : ∀ s, P [] s)
    (cons : ∀ t ts s, (∀ us u, u.nestingBound options < s.nestingBound options → P us u) →
      P ts (s.step (execute options) options t).state → P (t :: ts) s)
    (ts : List (Token K)) (s : Interpreter K) : P ts s := by
  induction hb : s.nestingBound options using Nat.strong_induction_on generalizing ts s with
  | _ b ih =>
    induction ts generalizing s with
    | nil => exact nil s
    | cons t ts iht =>
      refine cons t ts s ?_ ?_
      · intro us u hu
        exact ih _ (hb ▸ hu) _ _ rfl
      · have hnext := step_sameContext options t s
        exact iht _ ((hnext.levelsBelow _ _).trans hb)

theorem execute_entering_induction (options : Options K)
    {P : List (Token K) → Interpreter K → Prop} (nil : ∀ s, P [] s)
    (cons : ∀ t ts s, (∀ us u, Enters options s t us u → P us u) →
      P ts (s.step (execute options) options t).state → P (t :: ts) s)
    (ts : List (Token K)) (s : Interpreter K) : P ts s :=
  execute_nestingBound_induction options nil
    (fun t ts s hinside => cons t ts s fun us u henters =>
      hinside us u henters.nestingBound_lt) ts s

theorem execute_induction (options : Options K) {P : List (Token K) → Interpreter K → Prop}
    (nil : ∀ s, P [] s)
    (cons : ∀ t ts s,
      (∀ name form, DrawsForm options s name form →
        P (tokenize form.content) (s.cleared.enterForm name form)) →
      P ts (s.step (execute options) options t).state → P (t :: ts) s)
    (ts : List (Token K)) (s : Interpreter K) : P ts s :=
  execute_nestingBound_induction options nil
    (fun t ts s hinside => cons t ts s fun _ _ hdraws =>
      hinside _ _ (Enters.form hdraws).nestingBound_lt) ts s

end ContentStream.Interpreter
