import Mathlib
import ContentStream.Proofs.FormStack

set_option autoImplicit false

namespace ContentStream
variable {K : Type}

def openArrays (n : Nat) : Token K → Nat
  | .arrayStart => n + 1
  | .arrayEnd => n - 1
  | .operator _ => 0
  | _ => n

def arraysLeftOpen (ts : List (Token K)) : Nat := ts.foldl openArrays 0

namespace Interpreter

def readAll (ts : List (Token K)) (s : Interpreter K) : Interpreter K :=
  ts.foldl (fun u t => u.read t) s

theorem pushOperand_arrays_length (x : Operand K) (s : Interpreter K) :
    (s.pushOperand x).arrays.length = s.arrays.length := by
  unfold pushOperand
  split
  · rename_i h
    rw [h]
    rfl
  · rfl

theorem read_arrays_length {t : Token K} (ht : t.isOperator = false) (s : Interpreter K) :
    (s.read t).arrays.length = openArrays s.arrays.length t := by
  cases t with
  | operator name => exact absurd ht (by simp [Token.isOperator])
  | arrayStart => rfl
  | arrayEnd =>
    change s.closeArray.arrays.length = s.arrays.length - 1
    unfold closeArray
    split
    · rename_i h
      rw [pushOperand_arrays_length, h]
      rfl
    · rename_i h
      rw [h]
      rfl
  | number | string | name => exact pushOperand_arrays_length _ s

theorem pushOperand_congr (x : Operand K) {s u : Interpreter K} (h : s.operands = u.operands)
    (h' : s.arrays = u.arrays) : (s.pushOperand x).operands = (u.pushOperand x).operands ∧
      (s.pushOperand x).arrays = (u.pushOperand x).arrays := by
  unfold pushOperand
  rw [h', h]
  split
  · exact ⟨rfl, rfl⟩
  · exact ⟨rfl, rfl⟩

theorem read_congr (t : Token K) {s u : Interpreter K} (h : s.operands = u.operands)
    (h' : s.arrays = u.arrays) :
    (s.read t).operands = (u.read t).operands ∧ (s.read t).arrays = (u.read t).arrays := by
  cases t with
  | operator name => exact ⟨h, h'⟩
  | arrayStart => exact ⟨h, congrArg ([] :: ·) h'⟩
  | arrayEnd =>
    change s.closeArray.operands = u.closeArray.operands ∧ s.closeArray.arrays = u.closeArray.arrays
    unfold closeArray
    rw [h']
    split
    · exact pushOperand_congr _ h rfl
    · exact ⟨h, h'⟩
  | number | string | name => exact pushOperand_congr _ h h'

theorem readAll_congr (ts : List (Token K)) {s u : Interpreter K} (h : s.operands = u.operands)
    (h' : s.arrays = u.arrays) : (readAll ts s).operands = (readAll ts u).operands := by
  induction ts generalizing s u with
  | nil => exact h
  | cons t ts ih => exact ih (read_congr t h h').1 (read_congr t h h').2

def call? (s : Interpreter K) : Token K → Option (String × Operand.Stack K)
  | .operator name => some (name, s.operands)
  | _ => none

def calls : List (Token K) → Interpreter K → List (String × Operand.Stack K)
  | [], _ => []
  | .operator name :: ts, s => (name, s.operands) :: calls ts s.cleared
  | t :: ts, s => calls ts (s.read t)

theorem calls_congr (ts : List (Token K)) {s u : Interpreter K} (h : s.operands = u.operands)
    (h' : s.arrays = u.arrays) : calls ts s = calls ts u := by
  induction ts generalizing s u with
  | nil => rfl
  | cons t ts ih =>
    cases t with
    | operator name => rw [calls, calls, h, ih (s := s.cleared) (u := u.cleared) rfl rfl]
    | _ => exact ih (read_congr _ h h').1 (read_congr _ h h').2

variable [Scalar K] {options : Options K}

/-- The operands that tokens leave on their own. -/
def operandsOf (ts : List (Token K)) : Operand.Stack K :=
  (readAll ts (.ofPage .empty .standard)).operands

theorem execute_readAll (ts : List (Token K)) (hts : ∀ t ∈ ts, t.isOperator = false)
    (s : Interpreter K) : execute options ts s = .ok (readAll ts s) := by
  induction ts generalizing s with
  | nil => exact execute_nil options s
  | cons t ts ih =>
    have ht : t.isOperator = false := hts t List.mem_cons_self
    rw [execute_cons_ok (step_operand _ options ht s) ts]
    exact ih (fun t' h => hts t' (List.mem_cons_of_mem _ h)) _

theorem execute_operator {name : String} {op : Operator} (hop : Operator.ofName? name = some op)
    (hext : op ≠ .extGState) (hpaint : op ≠ .paintXObject) (ts : List (Token K))
    (s : Interpreter K) : execute options (.operator name :: ts) s =
      execute options ts (s.cleared.apply options op s.operands) :=
  execute_cons_ok (step_apply (execute options) options hop hext hpaint s) ts

theorem execute_apply (op : Operator) {name : String} (hop : Operator.ofName? name = some op)
    (hext : op ≠ .extGState) (hpaint : op ≠ .paintXObject) (s : Interpreter K) :
    execute options [.operator name] s = .ok (s.cleared.apply options op s.operands) :=
  (execute_operator hop hext hpaint [] s).trans (execute_nil options _)

theorem afterForm_arrays (s : Interpreter K) (r : Outcome K) :
    (s.afterForm r).state.arrays = r.state.arrays := by
  have hleave : (s.leaveForm r.state).arrays = r.state.arrays :=
    (endOpenText_changes r.state).arrays
  unfold afterForm
  split <;> exact hleave

theorem afterForm_operands {s : Interpreter K} {r : Outcome K} (h : (s.afterForm r).fault = none) :
    (s.afterForm r).state.operands = [] := by
  unfold afterForm at h ⊢
  split at h
  · rename_i hfatal
    have hr : r.fault = none := h
    rw [hr] at hfatal
    exact absurd hfatal (by simp)
  · rename_i hfatal
    rw [if_neg hfatal]
    rfl

theorem Stepped.operands {run : Run K} {s : Interpreter K} {name : String} {r : Outcome K}
    (h : Stepped run options s (.operator name) r) (hr : r.fault = none) :
    r.state.operands = [] := by
  cases h with
  | operand ht => exact absurd ht (by simp [Token.isOperator])
  | save | restore | image _ => rfl
  | plain hchanges _ _ => exact hchanges.operands
  | fatal _ _ => exact absurd hr (by simp)
  | form _ => exact afterForm_operands hr

/-- Only a form can leave an array open, and it leaves those of its content. -/
theorem Stepped.arrays {run : Run K} {s : Interpreter K} {name : String} {r : Outcome K}
    (h : Stepped run options s (.operator name) r) :
    r.state.arrays = [] ∨ ∃ n form, name = "Do" ∧ DrawsForm options s n form ∧
      r = s.cleared.afterForm (run (tokenize form.content) (s.cleared.enterForm n form)) := by
  cases h with
  | operand ht => exact absurd ht (by simp [Token.isOperator])
  | save | restore | image _ => exact .inl rfl
  | plain hchanges _ _ => exact .inl hchanges.arrays
  | fatal hchanges _ => exact .inl hchanges.arrays
  | form hdraws => exact .inr ⟨_, _, rfl, hdraws, rfl⟩

theorem calls_cons {t : Token K} {s : Interpreter K}
    (hok : (s.step (execute options) options t).fault = none)
    (hform : t = .operator "Do" → ∀ name form, ¬ DrawsForm options s name form)
    (ts : List (Token K)) :
    calls (t :: ts) s =
      (s.call? t).toList ++ calls ts (s.step (execute options) options t).state := by
  cases t with
  | operator name =>
    have hstepped := stepped (execute options) options (.operator name) s
    have harrays : (s.step (execute options) options (.operator name)).state.arrays = [] := by
      rcases hstepped.arrays with harrays | ⟨n, form, hname, hdraws, -⟩
      · exact harrays
      · exact absurd hdraws (hform (congrArg _ hname) n form)
    rw [calls, calls_congr ts (s := s.cleared) (hstepped.operands hok).symm harrays.symm]
    rfl
  | _ => rfl

/-- Where no form leaves an array open, the arrays that are open at the end can be counted from
the tokens. -/
theorem execute_arrays_length (ts : List (Token K)) (s : Interpreter K)
    (hforms : s.resources.AllForms fun f => arraysLeftOpen (tokenize (K := K) f.content) = 0)
    (hr : (execute options ts s).fault = none) :
    (execute options ts s).state.arrays.length = ts.foldl openArrays s.arrays.length := by
  induction ts, s using execute_induction options with
  | nil s =>
    rw [execute_nil]
    rfl
  | cons t ts s ihform ihnext =>
    have hstep := stepped (execute options) options t s
    have hsame := step_sameContext options t s
    have hforms' : (s.step (execute options) options t).state.resources.AllForms
        fun f => arraysLeftOpen (tokenize (K := K) f.content) = 0 := by
      rw [hsame.resources]
      exact hforms
    cases hfault : (s.step (execute options) options t).fault with
    | some fault =>
      rw [execute_cons_fault (by rw [hfault]; rfl), hfault] at hr
      exact absurd hr (by simp)
    | none =>
      have hcount : (s.step (execute options) options t).state.arrays.length =
          openArrays s.arrays.length t := by
        cases ht : t.isOperator with
        | false =>
          rw [step_operand _ options ht]
          exact read_arrays_length ht s
        | true =>
          cases t with
          | operator name =>
            change _ = 0
            rcases hstep.arrays with harrays | ⟨n, form, -, hdraws, hafter⟩
            · rw [harrays]
              rfl
            · rw [hafter] at hfault ⊢
              have hinside := ihform n form hdraws (hforms.inside hdraws.entry)
                (fault_of_afterForm hfault)
              rw [afterForm_arrays, hinside]
              exact hforms.entry hdraws.entry
          | _ => exact absurd ht (by simp [Token.isOperator])
      rw [execute_cons_ok (Outcome.eq_ok hfault)] at hr ⊢
      rw [ihnext hforms' hr, hcount, List.foldl_cons]

/-- An operator that ends without a fault leaves no operands. It leaves no open array either, and
so the next operator gets what the tokens between the two make up on their own, exactly if any form
that it has drawn ends outside of all arrays, as it does if all contents that can be drawn close
their arrays. The content of a form begins with nothing collected. -/
theorem execute_operator_scope (options : Options K) (s : Interpreter K) (name : String)
    (h : (execute options [.operator name] s).fault = none) :
    let r := execute options [.operator name] s
    r.state.operands = [] ∧
    (r.state.arrays = [] ↔ ∀ n form, name = "Do" → DrawsForm options s n form →
      (execute options (tokenize form.content) (s.cleared.enterForm n form)).state.arrays = []) ∧
    (r.state.arrays = [] ↔ ∀ between : List (Token K), (∀ t ∈ between, t.isOperator = false) →
      (execute options (.operator name :: between) s).state.operands = operandsOf between) ∧
    ((s.resources.AllForms fun f => arraysLeftOpen (tokenize (K := K) f.content) = 0) →
      r.state.arrays = []) ∧
    (∀ n form, name = "Do" → DrawsForm options s n form →
      ∀ first : List (Token K), (∀ t ∈ first, t.isOperator = false) →
        (execute options first (s.cleared.enterForm n form)).state.operands =
          operandsOf first) := by
  intro r
  have hsingle : r = s.step (execute options) options (.operator name) :=
    execute_singleton options _ s
  have hstepped : Stepped (execute options) options s (.operator name) r := by
    rw [hsingle]
    exact stepped _ options _ s
  have hoperands : r.state.operands = [] := hstepped.operands h
  have hok : s.step (execute options) options (.operator name) = .ok r.state := by
    rw [← hsingle]
    exact Outcome.eq_ok h
  have hrun : ∀ between : List (Token K), (∀ t ∈ between, t.isOperator = false) →
      (execute options (.operator name :: between) s).state = readAll between r.state := by
    intro between hbetween
    rw [execute_cons_ok hok, execute_readAll between hbetween]
    rfl
  refine ⟨hoperands, ⟨?_, ?_⟩, ⟨?_, ?_⟩, ?_, ?_⟩
  · rintro harrays n form rfl hdraws
    rw [hsingle, step_form hdraws, afterForm_arrays] at harrays
    exact harrays
  · intro hinside
    rcases hstepped.arrays with harrays | ⟨n, form, hname, hdraws, hafter⟩
    · exact harrays
    · rw [hafter, afterForm_arrays]
      exact hinside n form hname hdraws
  · intro harrays between hbetween
    rw [hrun between hbetween]
    exact readAll_congr between hoperands harrays
  · -- A number shows whether an array is open: it is an operand only if none is.
    intro hscope
    have hnumber := hscope [.number 0] (by simp [Token.isOperator])
    rw [hrun _ (by simp [Token.isOperator])] at hnumber
    by_contra hopen
    obtain ⟨items, arrays, harrays⟩ := List.exists_cons_of_ne_nil hopen
    have hnone : (readAll [.number 0] r.state).operands = [] := by
      change (r.state.pushOperand _).operands = []
      unfold pushOperand
      rw [harrays]
      exact hoperands
    rw [hnone] at hnumber
    exact absurd hnumber (by simp [operandsOf, readAll, read, pushOperand, ofPage, ofBaseState])
  · intro hforms
    have hlength := execute_arrays_length [.operator name] s hforms h
    exact List.eq_nil_of_length_eq_zero hlength
  · intro n form _ _ first hfirst
    rw [execute_readAll first hfirst]
    exact readAll_congr first rfl rfl

theorem execute_operator_scope_closedArray :
    (execute .standard [.operator "Do"] (beforeForm "[1 2] 3")).state.operands = [] := by
  refine (execute_operator_scope .standard (beforeForm "[1 2] 3") "Do" ?_).1
  decide +kernel

/-- The array that the form leaves open is closed by its caller, who sets it as a dash pattern. -/
theorem execute_operator_scope_openArray :
    let r := execute .standard [.operator "Do"] (beforeForm "[1 2")
    r.fault = none ∧ r.state.arrays ≠ [] ∧
    (execute .standard [.arrayEnd, .number 0, .operator "d"] r.state).state.state.dashArray =
      [1, 2] := by
  refine ⟨?_, ?_, ?_⟩
  · decide +kernel
  · decide +kernel
  · decide +kernel

end Interpreter
end ContentStream
