import Mathlib
import ContentStream.Proofs.Execution
import ContentStream.Proofs.NestedMasks

set_option autoImplicit false

namespace ContentStream
variable {K : Type}

def Options.withMaskLimit (limit : Nat) (options : Options K) : Options K :=
  { options with maxMaskDepth := limit }

variable [Scalar K]

theorem Layer.ofElements_withMaskLimit (resources : Resources K) (options : Options K)
    (limit : Nat) (elements : List (Element K)) :
    ofElements resources (options.withMaskLimit limit) elements =
      ofElements resources options elements := by
  induction elements with
  | nil => rfl
  | cons e elements ih =>
    have he : ofElement? resources (options.withMaskLimit limit) e =
        ofElement? resources options e := by
      cases e <;> rfl
    simp only [ofElements, he, ih]

theorem SoftMaskGroup.valueOf_withMaskLimit (g : SoftMaskGroup K) (ctm : Transform K)
    (options : Options K) (limit : Nat) (elements : List (Element K)) :
    g.valueOf ctm (options.withMaskLimit limit) elements = g.valueOf ctm options elements := by
  have hcomposite : ∀ bbox, g.composite bbox elements (options.withMaskLimit limit) =
      g.composite bbox elements options := by
    intro bbox
    simp only [composite, Layer.ofElements_withMaskLimit]
    rfl
  simp only [valueOf, hcomposite]

namespace Interpreter
variable {options : Options K} {m m' : Nat}

def WithinLevel (limit : Nat) (s : Interpreter K) : Prop :=
  ∀ t ∈ s.resources.tables s.maskDepth, t.1 ≤ limit

namespace WithinLevel
variable {limit : Nat} {s t : Interpreter K}

omit [Scalar K] in
theorem congr (h : WithinLevel limit s) (hsame : SameContext s t) : WithinLevel limit t := by
  unfold WithinLevel
  rw [hsame.resources, hsame.maskDepth]
  exact h

theorem enters (h : WithinLevel limit s) {u : Interpreter K} {t : Token K} {us : List (Token K)}
    (henters : Enters options s t us u) : WithinLevel limit u :=
  fun t' ht' => h t' (henters.tables_subset ht')

omit [Scalar K] in
theorem maskDepth_lt (h : WithinLevel limit s) {name : String} {e : ExtGState K}
    {g : SoftMaskGroup K} (hentry : s.resources.extGState? name = some e)
    (hgroup : e.softMask = some (.group g)) : s.maskDepth < limit :=
  h _ (Resources.tables_subset_of_group hentry hgroup _ (Resources.mem_tables_self _ _))

end WithinLevel

theorem dispatch_withMaskLimit (run : Run K) (options : Options K) (limit : Nat) {op : Operator}
    (h : op ≠ .extGState) (args : Operand.Stack K) (s : Interpreter K) :
    s.dispatch run (options.withMaskLimit limit) op args = s.dispatch run options op args := by
  cases op <;> first | rfl | contradiction

theorem setSoftMask_withMaskLimit (run : Run K) (options : Options K) (g : SoftMaskGroup K)
    {s : Interpreter K} (h : s.maskDepth < m) (h' : s.maskDepth < m') :
    s.setSoftMask run (options.withMaskLimit m) g =
      s.setSoftMask run (options.withMaskLimit m') g := by
  have hm : ¬ (options.withMaskLimit m).maxMaskDepth ≤ s.maskDepth := Nat.not_le.2 h
  have hm' : ¬ (options.withMaskLimit m').maxMaskDepth ≤ s.maskDepth := Nat.not_le.2 h'
  unfold setSoftMask
  rw [if_neg hm, if_neg hm']
  simp only [SoftMaskGroup.evaluateWith, SoftMaskGroup.valueOf_withMaskLimit]

theorem setExtGState_withMaskLimit (run : Run K) (options : Options K) (name : String)
    {s : Interpreter K} (h : WithinLevel m s) (h' : WithinLevel m' s) :
    s.setExtGState run (options.withMaskLimit m) name =
      s.setExtGState run (options.withMaskLimit m') name := by
  unfold setExtGState
  cases hentry : s.resources.extGState? name with
  | none => rfl
  | some e =>
    dsimp only
    cases hmask : e.softMask with
    | none => rfl
    | some mask =>
      cases mask with
      | none => rfl
      | group g =>
        exact setSoftMask_withMaskLimit run options g (h.maskDepth_lt hentry hmask)
          (h'.maskDepth_lt hentry hmask)

theorem step_withMaskLimit (run : Run K) (options : Options K) (t : Token K) {s : Interpreter K}
    (h : WithinLevel m s) (h' : WithinLevel m' s) :
    s.step run (options.withMaskLimit m) t = s.step run (options.withMaskLimit m') t := by
  cases ht : t.isOperator with
  | false => rw [step_operand run _ ht, step_operand run _ ht]
  | true =>
    cases t with
    | operator name =>
      cases hop : Operator.ofName? name with
      | none => rw [step_operator_none run _ hop, step_operator_none run _ hop]
      | some op =>
        by_cases hext : op = .extGState
        · subst hext
          obtain rfl : name = "gs" := Operator.ofName?_inj hop rfl
          rw [step_extGState, step_extGState]
          cases (Operand.popName s.operands).1 with
          | none => rfl
          | some name => exact setExtGState_withMaskLimit run options name (s := s.cleared) h h'
        · rw [step_operator_some run _ hop, step_operator_some run _ hop,
            dispatch_withMaskLimit run options m hext, dispatch_withMaskLimit run options m' hext]
    | _ => exact absurd ht (by simp [Token.isOperator])

theorem execute_withMaskLimit (options : Options K) (ts : List (Token K)) (s : Interpreter K)
    (h : WithinLevel m s) (h' : WithinLevel m' s) :
    execute (options.withMaskLimit m) ts s = execute (options.withMaskLimit m') ts s := by
  induction ts, s using execute_entering_induction (options.withMaskLimit m) with
  | nil s => rw [execute_nil, execute_nil]
  | cons t ts s ihinside ihnext =>
    -- What the token enters runs alike under both limits, so the token does the same.
    have hinside := step_congr t s fun us u henters =>
      ihinside us u henters (h.enters henters) (h'.enters henters)
    have hstep := hinside.trans (step_withMaskLimit _ options t h h')
    have hsame := step_sameContext (options.withMaskLimit m) t s
    have hnext := ihnext (h.congr hsame) (h'.congr hsame)
    rw [execute_cons, execute_cons, ← hstep]
    dsimp only
    rw [hnext]

end Interpreter

/-- The limit on nested masks makes no difference where masks nest no deeper, in the forms of the
tree and in its groups: the same elements are drawn, or the same fault ends the interpretation. -/
theorem interpretContent_withMaskLimit (resources : Resources K) (options : Options K) {m m' : Nat}
    (h : resources.groupDepth ≤ m) (h' : resources.groupDepth ≤ m') (content : List UInt8) :
    interpretContent resources (options.withMaskLimit m) content =
      interpretContent resources (options.withMaskLimit m') content := by
  let page := Interpreter.ofPage resources options
  have hwithin : ∀ {limit : Nat}, resources.groupDepth ≤ limit → page.WithinLevel limit := by
    intro limit hlimit t ht
    exact (Resources.level_le_groupDepth ht).trans hlimit
  have hexecute : Interpreter.execute (options.withMaskLimit m) (tokenize content) page =
      Interpreter.execute (options.withMaskLimit m') (tokenize content) page :=
    Interpreter.execute_withMaskLimit options _ page (hwithin h) (hwithin h')
  have hpage : ∀ limit, Interpreter.ofPage resources (options.withMaskLimit limit) = page :=
    fun _ => rfl
  simp only [interpretContent, interpret, hpage, hexecute]

/-- A mask whose content asks for another one. One level less leaves the inner one out. -/
theorem interpretContent_withMaskLimit_nested :
    let options := SoftMaskGroup.coarse
    let mask := (SoftMaskGroup.squareGroup "0 0 1 2 re f").withNested "/N gs 0 0 2 2 re f"
    let page : Resources ℚ := { Resources.empty with
      extGStates := [("M", { ExtGState.empty with softMask := some (.group mask) })] }
    let drawn := fun limit =>
      interpretContent page (options.withMaskLimit limit) (Utf8.encode "/M gs 0 0 2 2 re f")
    page.groupDepth = 2 ∧ drawn 2 = drawn 7 ∧ drawn 1 ≠ drawn 2 := by
  intro options mask page drawn
  have hdepth : page.groupDepth = 2 := by decide +kernel
  refine ⟨hdepth, ?_, ?_⟩
  · exact interpretContent_withMaskLimit page options hdepth.le (hdepth.trans_le (by decide)) _
  · decide +kernel

end ContentStream
