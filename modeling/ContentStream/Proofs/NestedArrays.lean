import Mathlib
import ContentStream.Proofs.OperandScope

set_option autoImplicit false

namespace ContentStream
variable {K : Type}

namespace Operand

mutual

def tokens : Operand K → List (Token K)
  | number v => [.number v]
  | string bytes => [.string bytes]
  | name text => [.name text]
  | array items => .arrayStart :: (tokensOfItems items ++ [.arrayEnd])

def tokensOfItems : List (Operand K) → List (Token K)
  | [] => []
  | x :: xs => x.tokens ++ tokensOfItems xs

end

mutual

theorem not_isOperator_of_mem_tokens {t : Token K} :
    ∀ x : Operand K, t ∈ x.tokens → t.isOperator = false
  | number _, ht | string _, ht | name _, ht => by
    obtain rfl := List.mem_singleton.1 ht
    rfl
  | array items, ht => by
    simp only [tokens, List.mem_cons, List.mem_append, List.not_mem_nil, or_false] at ht
    rcases ht with rfl | hitems | rfl
    · rfl
    · exact not_isOperator_of_mem_tokensOfItems items hitems
    · rfl

theorem not_isOperator_of_mem_tokensOfItems {t : Token K} :
    ∀ xs : List (Operand K), t ∈ tokensOfItems xs → t.isOperator = false
  | [], ht => absurd ht List.not_mem_nil
  | x :: xs, ht => by
    rcases List.mem_append.1 ht with hx | hxs
    · exact not_isOperator_of_mem_tokens x hx
    · exact not_isOperator_of_mem_tokensOfItems xs hxs

end

end Operand

namespace Interpreter

theorem readAll_append (ts us : List (Token K)) (s : Interpreter K) :
    readAll (ts ++ us) s = readAll us (readAll ts s) :=
  List.foldl_append

/-- Items that are added to an open array stay in order, the last one first. -/
theorem pushOperands_open (xs items : List (Operand K)) (outer : List (List (Operand K)))
    (s : Interpreter K) :
    xs.foldl (fun u x => u.pushOperand x) { s with arrays := items :: outer } =
      { s with arrays := (xs.reverse ++ items) :: outer } := by
  induction xs generalizing items with
  | nil => rfl
  | cons x xs ih =>
    rw [List.reverse_cons, List.append_assoc]
    exact ih (x :: items)

theorem closeArray_open (xs : List (Operand K)) (s : Interpreter K) :
    (xs.foldl (fun u x => u.pushOperand x) s.openArray).closeArray = s.pushOperand (.array xs) := by
  unfold openArray
  rw [pushOperands_open, List.append_nil]
  change s.pushOperand (.array xs.reverse.reverse) = _
  rw [List.reverse_reverse]

mutual

theorem readAll_tokens : ∀ (x : Operand K) (s : Interpreter K),
    readAll x.tokens s = s.pushOperand x
  | .number _, _ | .string _, _ | .name _, _ => rfl
  | .array items, s => by
    rw [Operand.tokens]
    change readAll (_ ++ [Token.arrayEnd]) s.openArray = _
    rw [readAll_append, readAll_tokensOfItems items]
    exact closeArray_open items s

theorem readAll_tokensOfItems : ∀ (xs : List (Operand K)) (s : Interpreter K),
    readAll (Operand.tokensOfItems xs) s = xs.foldl (fun u x => u.pushOperand x) s
  | [], _ => rfl
  | x :: xs, s => by
    rw [Operand.tokensOfItems, readAll_append, readAll_tokens x]
    exact readAll_tokensOfItems xs _

end

def given (args : List (Operand K)) (s : Interpreter K) : Interpreter K :=
  { s with operands := args.reverse ++ s.operands }

theorem pushOperands_closed (xs : List (Operand K)) {s : Interpreter K} (h : s.arrays = []) :
    xs.foldl (fun u x => u.pushOperand x) s = s.given xs := by
  induction xs generalizing s with
  | nil => rfl
  | cons x xs ih =>
    have hpush : s.pushOperand x = { s with operands := x :: s.operands } := by
      unfold pushOperand
      rw [h]
    rw [List.foldl_cons, hpush, ih (s := { s with operands := x :: s.operands }) h]
    simp [given]

variable [Scalar K] {options : Options K}

theorem execute_tokens (x : Operand K) (s : Interpreter K) :
    execute options x.tokens s = .ok (s.pushOperand x) := by
  rw [execute_readAll _ (fun _ => x.not_isOperator_of_mem_tokens), readAll_tokens]

/-- Where no array is open, the operands that are written before an operator are those that it is
given. -/
theorem execute_tokensOfItems {s : Interpreter K} (h : s.arrays = []) (args : List (Operand K))
    (ts : List (Token K)) :
    execute options (Operand.tokensOfItems args ++ ts) s = execute options ts (s.given args) := by
  rw [execute_append, execute_readAll _ fun _ => Operand.not_isOperator_of_mem_tokensOfItems args,
    readAll_tokensOfItems, pushOperands_closed args h]
  rfl

section Calls
variable (op : Operator) {name : String} (hop : Operator.ofName? name = some op)
  (hext : op ≠ .extGState) (hpaint : op ≠ .paintXObject) (args : List (Operand K))
  (ts : List (Token K))
include hop hext hpaint

theorem execute_given (s : Interpreter K) : execute options (.operator name :: ts) (s.given args) =
    execute options ts (s.cleared.apply options op (args.reverse ++ s.operands)) :=
  execute_operator hop hext hpaint ts (s.given args)

theorem execute_call {s : Interpreter K} (h : s.arrays = []) :
    execute options (Operand.tokensOfItems args ++ .operator name :: ts) s =
      execute options ts (s.cleared.apply options op (args.reverse ++ s.operands)) :=
  (execute_tokensOfItems h args _).trans (execute_given op hop hext hpaint args ts s)

end Calls

/-- The tokens that write a value add it to the innermost open array, or else to the operands, and
change nothing else. A bracket that closes nothing has no effect, and what arrays hold that are open
at an operator has no effect on anything that follows. -/
theorem execute_written (options : Options K) (s : Interpreter K) :
    (∀ x : Operand K,
      (∀ items outer, s.arrays = items :: outer →
        execute options x.tokens s = .ok { s with arrays := (x :: items) :: outer }) ∧
      (s.arrays = [] →
        execute options x.tokens s = .ok { s with operands := x :: s.operands })) ∧
    (s.arrays = [] → execute options [.arrayEnd] s = .ok s) ∧
    ∀ name ts, execute options (.operator name :: ts) s =
      execute options (.operator name :: ts) { s with arrays := [] } := by
  refine ⟨?_, ?_, ?_⟩
  · intro x
    rw [execute_tokens]
    unfold pushOperand
    refine ⟨?_, ?_⟩
    · intro items outer harrays
      rw [harrays]
    · intro harrays
      rw [harrays]
  · intro harrays
    rw [execute_singleton]
    change Outcome.ok s.closeArray = .ok s
    unfold closeArray
    rw [harrays]
  · intro name ts
    have hstep : s.step (execute options) options (.operator name) =
        ({ s with arrays := [] } : Interpreter K).step (execute options) options
          (.operator name) := rfl
    rw [execute_cons, execute_cons, hstep]

/-- The array `[1 [(x)]]` inside another one, and then a bracket too many. -/
theorem execute_written_nested :
    let x : Operand ℚ := .array [.number 1, .array [.string [120]]]
    let s : Interpreter ℚ := { Interpreter.ofPage .empty .standard with arrays := [[.number 0]] }
    let u : Interpreter ℚ := .ofPage .empty .standard
    execute .standard x.tokens s = .ok { s with arrays := [[x, .number 0]] } ∧
    execute .standard x.tokens u = .ok { u with operands := [x] } ∧
    execute .standard [.arrayEnd] u = .ok u := by
  intro x s u
  obtain ⟨hwritten, -, -⟩ := execute_written .standard s
  obtain ⟨hwritten', hstray, -⟩ := execute_written .standard u
  exact ⟨(hwritten x).1 [.number 0] [] rfl, (hwritten' x).2 rfl, hstray rfl⟩

end Interpreter
end ContentStream
