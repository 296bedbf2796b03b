import Mathlib
import ContentStream.Proofs.Changes

set_option autoImplicit false

namespace ContentStream
variable {K : Type}

def Token.isOperator : Token K → Bool
  | .operator _ => true
  | _ => false

theorem Operator.mem_table {name : String} {op : Operator} (h : ofName? name = some op) :
    (name, op) ∈ table := by
  obtain ⟨before, after, htable, -⟩ := List.lookup_eq_some_iff.1 h
  rw [htable]
  exact List.mem_append_right _ List.mem_cons_self

theorem Operator.ofName?_inj {name name' : String} {op : Operator} (h : ofName? name = some op)
    (h' : ofName? name' = some op) : name = name' := by
  have hnodup : (table.map Prod.snd).Nodup := by decide
  exact congrArg Prod.fst
    (List.inj_on_of_nodup_map hnodup (mem_table h) (mem_table h') rfl)

theorem Outcome.eq_ok {r : Outcome K} (h : r.fault = none) : r = .ok r.state := by
  cases r
  exact congrArg _ h

namespace Interpreter

def read (t : Token K) (s : Interpreter K) : Interpreter K :=
  match t with
  | .number v => s.pushOperand (.number v)
  | .string bytes => s.pushOperand (.string bytes)
  | .name text => s.pushOperand (.name text)
  | .arrayStart => s.openArray
  | .arrayEnd => s.closeArray
  | .operator _ => s

theorem pushOperand_frame (x : Operand K) (s : Interpreter K) :
    s.pushOperand x =
      { s with operands := (s.pushOperand x).operands, arrays := (s.pushOperand x).arrays } := by
  unfold pushOperand
  split <;> rfl

theorem read_frame (t : Token K) (s : Interpreter K) :
    s.read t = { s with operands := (s.read t).operands, arrays := (s.read t).arrays } := by
  cases t with
  | operator | arrayStart => rfl
  | number | string | name => exact pushOperand_frame _ s
  | arrayEnd =>
    change s.closeArray =
      { s with operands := s.closeArray.operands, arrays := s.closeArray.arrays }
    unfold closeArray
    split
    · exact pushOperand_frame _ _
    · rfl

def cleared (s : Interpreter K) : Interpreter K := { s with operands := [], arrays := [] }

/-- The state `s` draws the form that its last operand names. -/
structure DrawsForm (options : Options K) (s : Interpreter K) (name : String)
    (form : FormXObject K) : Prop where
  operand : (Operand.popName s.operands).1 = some name
  entry : s.resources.xObject? name = some (.form form)
  fresh : name ∉ s.formStack
  shallow : s.formStack.length < options.maxFormDepth

structure DrawsImage (s : Interpreter K) (name : String) (i : ImageXObject) : Prop where
  operand : (Operand.popName s.operands).1 = some name
  entry : s.resources.xObject? name = some (.image i)

theorem DrawsImage.not_drawsForm {options : Options K} {s : Interpreter K} {name name' : String}
    {i : ImageXObject} {form : FormXObject K} (h : DrawsImage s name i) :
    ¬ DrawsForm options s name' form := by
  intro h'
  obtain rfl := Option.some.inj (h.operand.symm.trans h'.operand)
  exact absurd (h.entry.symm.trans h'.entry) (by simp)

variable [Scalar K]

def afterForm (s : Interpreter K) (r : Outcome K) : Outcome K :=
  if r.fault.any Fault.isFatal then { r with state := s.leaveForm r.state }
  else .ok { s.leaveForm r.state with operands := [] }

inductive Performed (run : Run K) (options : Options K) (s : Interpreter K) :
    Token K → Outcome K → Prop
  | operand {t : Token K} (h : t.isOperator = false) : Performed run options s t (.ok (s.read t))
  | unknown {name : String} (h : Operator.ofName? name = none) :
      Performed run options s (.operator name) (.ok s.cleared)
  | apply {name : String} {op : Operator} (h : Operator.ofName? name = some op)
      (hext : op ≠ .extGState) (hpaint : op ≠ .paintXObject) :
      Performed run options s (.operator name) (.ok (s.cleared.apply options op s.operands))
  | extGState {r : Outcome K} (h : Affected options s.cleared r)
      (hframe : r.state = { s.cleared with stack := r.state.stack }) :
      Performed run options s (.operator "gs") r
  | idle : Performed run options s (.operator "Do") (.ok s.cleared)
  | image {name : String} {i : ImageXObject} (h : DrawsImage s name i) :
      Performed run options s (.operator "Do")
        (.ok (s.cleared.emit (.image ⟨withoutSlashes name, s.state⟩)))
  | form {name : String} {form : FormXObject K} (h : DrawsForm options s name form) :
      Performed run options s (.operator "Do")
        (s.cleared.afterForm (run (tokenize form.content) (s.cleared.enterForm name form)))

inductive Stepped (run : Run K) (options : Options K) (s : Interpreter K) :
    Token K → Outcome K → Prop
  | operand {t : Token K} (h : t.isOperator = false) : Stepped run options s t (.ok (s.read t))
  | save : Stepped run options s (.operator "q") (.ok { s.cleared with stack := s.stack.push })
  | restore : Stepped run options s (.operator "Q") (.ok { s.cleared with stack := s.stack.pop })
  | plain {name : String} {u : Interpreter K} (h : Changes s.cleared u) (hsave : name ≠ "q")
      (hrestore : name ≠ "Q") : Stepped run options s (.operator name) (.ok u)
  | fatal {u : Interpreter K} {fault : Fault K} (h : Changes s.cleared u)
      (hfault : fault.isFatal = true) : Stepped run options s (.operator "gs") ⟨u, some fault⟩
  | image {name : String} {i : ImageXObject} (h : DrawsImage s name i) :
      Stepped run options s (.operator "Do")
        (.ok (s.cleared.emit (.image ⟨withoutSlashes name, s.state⟩)))
  | form {name : String} {form : FormXObject K} (h : DrawsForm options s name form) :
      Stepped run options s (.operator "Do")
        (s.cleared.afterForm (run (tokenize form.content) (s.cleared.enterForm name form)))

theorem step_operand (run : Run K) (options : Options K) {t : Token K}
    (h : t.isOperator = false) (s : Interpreter K) : s.step run options t = .ok (s.read t) := by
  cases t with
  | operator name => exact absurd h (by simp [Token.isOperator])
  | _ => rfl

theorem step_operator_none (run : Run K) (options : Options K) {name : String}
    (h : Operator.ofName? name = none) (s : Interpreter K) :
    s.step run options (.operator name) = .ok s.cleared := by
  simp only [step, operate, h, cleared]

theorem step_operator_some (run : Run K) (options : Options K) {name : String} {op : Operator}
    (h : Operator.ofName? name = some op) (s : Interpreter K) :
    s.step run options (.operator name) =
      let r := s.cleared.dispatch run options op s.operands
      if r.fault.any Fault.isFatal then r else .ok { r.state with operands := [] } := by
  simp only [step, operate, h]
  rfl

section PaintXObject
variable {run : Run K} {options : Options K} {s : Interpreter K} {name : String}

theorem step_paintXObject_none (h : (Operand.popName s.operands).1 = none) :
    s.step run options (.operator "Do") = .ok s.cleared := by
  have hdispatch : s.cleared.dispatch run options .paintXObject s.operands = .ok s.cleared := by
    change (Operand.popName s.operands).1.elim _ _ = _
    rw [h]
    rfl
  rw [step_operator_some run options (show Operator.ofName? "Do" = some .paintXObject from rfl),
    hdispatch]
  rfl

theorem step_paintXObject_some (h : (Operand.popName s.operands).1 = some name) :
    s.step run options (.operator "Do") =
      let r := s.cleared.drawXObject run options name
      if r.fault.any Fault.isFatal then r else .ok { r.state with operands := [] } := by
  have hdispatch : s.cleared.dispatch run options .paintXObject s.operands =
      s.cleared.drawXObject run options name := by
    change (Operand.popName s.operands).1.elim _ _ = _
    rw [h]
    rfl
  rw [step_operator_some run options (show Operator.ofName? "Do" = some .paintXObject from rfl),
    hdispatch]

theorem step_unknownXObject (hname : (Operand.popName s.operands).1 = some name)
    (h : s.resources.xObject? name = none) :
    s.step run options (.operator "Do") = .ok s.cleared := by
  have hdraw : s.cleared.drawXObject run options name = .ok s.cleared := by
    have h' : s.cleared.resources.xObject? name = none := h
    simp only [drawXObject, h']
  rw [step_paintXObject_some hname, hdraw]
  rfl

theorem step_image {i : ImageXObject} (h : DrawsImage s name i) :
    s.step run options (.operator "Do") =
      .ok (s.cleared.emit (.image ⟨withoutSlashes name, s.state⟩)) := by
  have hdraw : s.cleared.drawXObject run options name =
      .ok (s.cleared.emit (.image ⟨withoutSlashes name, s.state⟩)) := by
    have hentry : s.cleared.resources.xObject? name = some (.image i) := h.entry
    simp only [drawXObject, hentry]
    rfl
  rw [step_paintXObject_some h.operand, hdraw]
  rfl

theorem drawXObject_form {form : FormXObject K}
    (h : s.resources.xObject? name = some (.form form)) :
    s.cleared.drawXObject run options name = s.cleared.drawForm run options name form := by
  have h' : s.cleared.resources.xObject? name = some (.form form) := h
  simp only [drawXObject, h']

theorem step_form {form : FormXObject K} (h : DrawsForm options s name form) :
    s.step run options (.operator "Do") =
      s.cleared.afterForm (run (tokenize form.content) (s.cleared.enterForm name form)) := by
  have hdraw : ¬ (s.cleared.formStack.contains name ||
      decide (options.maxFormDepth ≤ s.cleared.formStack.length)) = true := by
    simp only [Bool.or_eq_true, List.contains_iff_mem, decide_eq_true_eq, not_or]
    exact ⟨h.fresh, Nat.not_le.2 h.shallow⟩
  rw [step_paintXObject_some h.operand, drawXObject_form h.entry, drawForm, if_neg hdraw]
  rfl

theorem step_form_skipped {form : FormXObject K}
    (hname : (Operand.popName s.operands).1 = some name)
    (hform : s.resources.xObject? name = some (.form form))
    (h : ¬ DrawsForm options s name form) :
    s.step run options (.operator "Do") = .ok s.cleared := by
  have hskip : (s.cleared.formStack.contains name ||
      decide (options.maxFormDepth ≤ s.cleared.formStack.length)) = true := by
    by_contra hdraw
    simp only [Bool.or_eq_true, List.contains_iff_mem, decide_eq_true_eq, not_or] at hdraw
    exact h ⟨hname, hform, hdraw.1, Nat.not_le.1 hdraw.2⟩
  rw [step_paintXObject_some hname, drawXObject_form hform, drawForm, if_pos hskip]
  rfl

end PaintXObject

theorem performed_paintXObject (run : Run K) (options : Options K) (s : Interpreter K) :
    Performed run options s (.operator "Do") (s.step run options (.operator "Do")) := by
  cases hname : (Operand.popName s.operands).1 with
  | none =>
    rw [step_paintXObject_none hname]
    exact .idle
  | some name =>
    cases hentry : s.resources.xObject? name with
    | none =>
      rw [step_unknownXObject hname hentry]
      exact .idle
    | some x =>
      cases x with
      | image i =>
        have himage : DrawsImage s name i := ⟨hname, hentry⟩
        rw [step_image himage]
        exact .image himage
      | form form =>
        by_cases hdraws : DrawsForm options s name form
        · rw [step_form hdraws]
          exact .form hdraws
        · rw [step_form_skipped hname hentry hdraws]
          exact .idle

theorem apply_operands (options : Options K) (op : Operator) (args : Operand.Stack K)
    (s : Interpreter K) : (s.apply options op args).operands = s.operands := by
  by_cases hsave : op = .save
  · subst hsave
    rfl
  by_cases hrestore : op = .restore
  · subst hrestore
    rfl
  exact (apply_changes options op args s hsave hrestore).operands

omit [Scalar K] in
theorem settled_eq {r : Outcome K} (h : r.state.operands = [])
    (hfault : ∀ fault, r.fault = some fault → fault.isFatal = true) :
    (if r.fault.any Fault.isFatal then r else .ok { r.state with operands := [] }) = r := by
  obtain ⟨u, fault⟩ := r
  cases fault with
  | none =>
    cases u
    subst h
    rfl
  | some fault => exact if_pos (hfault fault rfl)

theorem step_apply (run : Run K) (options : Options K) {name : String} {op : Operator}
    (h : Operator.ofName? name = some op) (hext : op ≠ .extGState) (hpaint : op ≠ .paintXObject)
    (s : Interpreter K) :
    s.step run options (.operator name) = .ok (s.cleared.apply options op s.operands) := by
  have hdispatch : s.cleared.dispatch run options op s.operands =
      .ok (s.cleared.apply options op s.operands) := by
    cases op <;> first | rfl | contradiction
  rw [step_operator_some run options h, hdispatch]
  exact settled_eq (apply_operands options op _ s.cleared) (by simp [Outcome.ok])

theorem Affected.isFatal {options : Options K} {s : Interpreter K} {r : Outcome K}
    (h : Affected options s r) {fault : Fault K} (hr : r.fault = some fault) :
    fault.isFatal = true := by
  cases h with
  | ok _ => exact absurd hr (by simp [Outcome.ok])
  | fatal _ hfault =>
    obtain rfl := Option.some.inj hr
    exact hfault

theorem Affected.settled {options : Options K} {s : Interpreter K} {r : Outcome K}
    (h : Affected options s.cleared r) :
    (if r.fault.any Fault.isFatal then r else .ok { r.state with operands := [] }) = r :=
  settled_eq h.effect.changes.operands fun _ => h.isFatal

theorem step_extGState (run : Run K) (options : Options K) (s : Interpreter K) :
    s.step run options (.operator "gs") = (Operand.popName s.operands).1.elim (.ok s.cleared)
      fun name => s.cleared.setExtGState run options name := by
  have haffected : Affected options s.cleared
      (s.cleared.dispatch run options .extGState s.operands) := by
    change Affected options s.cleared
      ((Operand.popName s.operands).1.elim (.ok s.cleared) fun name =>
        s.cleared.setExtGState run options name)
    cases (Operand.popName s.operands).1 with
    | none => exact .ok (.refl _)
    | some name => exact setExtGState_affected run options name _
  rw [step_operator_some run options (show Operator.ofName? "gs" = some .extGState from rfl)]
  dsimp only
  rw [haffected.settled]
  rfl

theorem performed_extGState (run : Run K) (options : Options K) (s : Interpreter K) :
    Performed run options s (.operator "gs") (s.step run options (.operator "gs")) := by
  rw [step_extGState]
  cases (Operand.popName s.operands).1 with
  | none => exact .extGState (.ok (.refl _)) rfl
  | some name =>
    exact .extGState (setExtGState_affected run options name _)
      (setExtGState_frame run options name _)

theorem performed (run : Run K) (options : Options K) (t : Token K) (s : Interpreter K) :
    Performed run options s t (s.step run options t) := by
  cases ht : t.isOperator with
  | false =>
    rw [step_operand run options ht]
    exact .operand ht
  | true =>
    cases t with
    | operator name =>
      cases hop : Operator.ofName? name with
      | none =>
        rw [step_operator_none run options hop]
        exact .unknown hop
      | some op =>
        by_cases hext : op = .extGState
        · subst hext
          obtain rfl : name = "gs" := Operator.ofName?_inj hop rfl
          exact performed_extGState run options s
        by_cases hpaint : op = .paintXObject
        · subst hpaint
          obtain rfl : name = "Do" := Operator.ofName?_inj hop rfl
          exact performed_paintXObject run options s
        rw [step_apply run options hop hext hpaint]
        exact .apply hop hext hpaint
    | _ => exact absurd ht (by simp [Token.isOperator])

theorem Performed.stepped {run : Run K} {options : Options K} {s : Interpreter K} {t : Token K}
    {r : Outcome K} (h : Performed run options s t r) : Stepped run options s t r := by
  cases h with
  | operand ht => exact .operand ht
  | unknown hop =>
    refine .plain (.refl _) ?_ ?_
    · rintro rfl
      exact absurd hop (by decide)
    · rintro rfl
      exact absurd hop (by decide)
  | @apply name op hop hext hpaint =>
    by_cases hsave : op = .save
    · subst hsave
      obtain rfl : name = "q" := Operator.ofName?_inj hop rfl
      exact .save
    by_cases hrestore : op = .restore
    · subst hrestore
      obtain rfl : name = "Q" := Operator.ofName?_inj hop rfl
      exact .restore
    refine .plain (apply_changes options op s.operands s.cleared hsave hrestore) ?_ ?_
    · rintro rfl
      exact hsave (Option.some.inj (hop.symm.trans rfl))
    · rintro rfl
      exact hrestore (Option.some.inj (hop.symm.trans rfl))
  | extGState haffected _ =>
    cases haffected with
    | ok h => exact .plain h.changes (by decide) (by decide)
    | fatal h hfault => exact .fatal h.changes hfault
  | idle => exact .plain (.refl _) (by decide) (by decide)
  | image h => exact .image h
  | form h => exact .form h

theorem stepped (run : Run K) (options : Options K) (t : Token K) (s : Interpreter K) :
    Stepped run options s t (s.step run options t) :=
  (performed run options t s).stepped

end Interpreter
end ContentStream
