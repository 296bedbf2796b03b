import Mathlib
import ContentStream.Proofs.ParameterRules
import ContentStream.Proofs.ScalarLaws

set_option autoImplicit false

namespace ContentStream
variable {K : Type} [Scalar K]

def ExtGState.isFinite (e : ExtGState K) : Bool :=
  e.lineWidth.all Scalar.isFinite && e.miterLimit.all Scalar.isFinite &&
    e.dash.all fun d => d.1.all Scalar.isFinite && Scalar.isFinite d.2

theorem ExtGState.isFinite_iff {e : ExtGState K} : e.isFinite = true ↔
    (∀ x ∈ e.lineWidth, Scalar.isFinite x = true) ∧
      (∀ x ∈ e.miterLimit, Scalar.isFinite x = true) ∧
      ∀ d ∈ e.dash, (∀ x ∈ d.1, Scalar.isFinite x = true) ∧ Scalar.isFinite d.2 = true := by
  simp only [ExtGState.isFinite, Bool.and_eq_true, Option.all_eq_true, List.all_eq_true,
    Option.mem_def, and_assoc]

namespace GraphicsState

/-- The numbers of a state that come in lists: its dash array and the components of its colours. -/
def listed (g : GraphicsState K) : List K :=
  g.dashArray ++ g.fillColor.components ++ g.strokeColor.components

omit [Scalar K] in
theorem forall_listed {P : K → Prop} {g : GraphicsState K} : (∀ x ∈ g.listed, P x) ↔
    (∀ x ∈ g.dashArray, P x) ∧ (∀ x ∈ g.fillColor.components, P x) ∧
      ∀ x ∈ g.strokeColor.components, P x := by
  rw [listed, List.forall_mem_append, List.forall_mem_append, and_assoc]

omit [Scalar K] in
theorem forall_numbers {P : K → Prop} {g : GraphicsState K} : (∀ x ∈ g.numbers, P x) ↔
    (P g.lineWidth ∧ P g.miterLimit ∧ P g.dashPhase ∧ P g.text.charSpacing ∧
      P g.text.wordSpacing ∧ P g.text.horizontalScaling ∧ P g.text.leading ∧ P g.text.rise) ∧
      ∀ x ∈ g.flatness, P x := by
  simp only [numbers, List.forall_mem_append, List.forall_mem_cons, Option.mem_toList]
  simp

end GraphicsState

section Finite
variable [FiniteScalar K]

theorem Supplied.isFinite {x : K} (h : Supplied x) : Scalar.isFinite x = true := by
  rcases h with h | ⟨y, hy, rfl⟩
  · exact h
  · exact FiniteScalar.isFinite_neg hy

theorem ColorSpace.isFinite_initialComponents (s : ColorSpace) :
    ∀ x ∈ (s.initialComponents : List K), Scalar.isFinite x = true := by
  have hcmyk : ∀ x ∈ [(0 : K), 0, 0, 1], Scalar.isFinite x = true := by
    simp [FiniteScalar.isFinite_zero, FiniteScalar.isFinite_one]
  fun_induction ColorSpace.initialComponents (K := K) s with
  | case1 | case2 => exact hcmyk
  | case3 _ _ ih => exact ih
  | case4 =>
    intro x hx
    rw [List.eq_of_mem_replicate hx]
    exact FiniteScalar.isFinite_zero

theorem GraphicsState.isFinite_resize {components : List K} (n : ℕ)
    (h : ∀ x ∈ components, Scalar.isFinite x = true) :
    ∀ x ∈ resize components n, Scalar.isFinite x = true := by
  refine List.forall_mem_append.2 ⟨fun x hx => h x (List.mem_of_mem_take hx), ?_⟩
  intro x hx
  rw [List.eq_of_mem_replicate hx]
  exact FiniteScalar.isFinite_zero

theorem GraphicsState.isFinite_clearFillPattern {g : GraphicsState K}
    (h : ∀ x ∈ g.fillColor.components, Scalar.isFinite x = true) :
    ∀ x ∈ g.clearFillPattern.fillColor.components, Scalar.isFinite x = true := by
  unfold clearFillPattern
  dsimp only
  split
  · exact isFinite_resize _ h
  · exact isFinite_resize _ h
  · exact h

theorem Recolors.isFinite {r : Resources K} {args : Operand.Stack K} {taken : List K}
    {c c' : Color K} {p p' : Option String} (h : Recolors r args taken c p c' p')
    (htaken : ∀ x ∈ taken, Scalar.isFinite x = true)
    (hc : ∀ x ∈ c.components, Scalar.isFinite x = true) :
    ∀ x ∈ c'.components, Scalar.isFinite x = true := by
  cases h with
  | keep => exact hc
  | device _ _ hfinite => exact hfinite
  | select name => exact ColorSpace.isFinite_initialComponents _
  | components heq =>
    rcases c.withComponents_components p args with h | ⟨-, h⟩
    · rw [h, ← heq]
      exact htaken
    · rw [h]
      exact hc

omit [FiniteScalar K] in
theorem isFinite_getD {o : Option K} {x : K} (h : ∀ y ∈ o, Scalar.isFinite y = true)
    (hx : Scalar.isFinite x = true) : Scalar.isFinite (o.getD x) = true := by
  cases o with
  | none => exact hx
  | some y => exact h y rfl

theorem numbers_respected (root : Resources K) :
    Respected root (fun _ _ _ => True) (fun e => e.isFinite = true)
      (fun g => ∀ x ∈ g.numbers, Scalar.isFinite x = true) where
  initial := by
    have hzero : Scalar.isFinite (0 : K) = true := FiniteScalar.isFinite_zero
    refine GraphicsState.forall_numbers.2 ⟨⟨FiniteScalar.isFinite_one, FiniteScalar.isFinite_ten,
      hzero, hzero, hzero, FiniteScalar.isFinite_hundred, hzero, hzero⟩, ?_⟩
    exact fun x hx => absurd hx (by simp [GraphicsState.initial])
  same hsame hg := by
    rw [hsame.numbers]
    exact hg
  clear hg := hg
  write _ _ hwrites hg x hx := (hwrites.numbers x hx).elim (hg x) Supplied.isFinite
  extGState {e g} he hg := by
    obtain ⟨hwidth, hmiter, hdash⟩ := ExtGState.isFinite_iff.1 he
    obtain ⟨⟨hwidth', hmiter', hphase', htext⟩, hflat⟩ := GraphicsState.forall_numbers.1 hg
    refine GraphicsState.forall_numbers.2 ⟨⟨?_, ?_, ?_, htext⟩, hflat⟩
    · exact isFinite_getD hwidth hwidth'
    · exact isFinite_getD hmiter hmiter'
    · refine isFinite_getD ?_ hphase'
      intro phase hphase
      obtain ⟨d, hd, rfl⟩ := Option.map_eq_some_iff.1 hphase
      exact (hdash d hd).2

theorem listed_respected (root : Resources K) :
    Respected root (fun op args g => ∀ x ∈ op.taken args g, Scalar.isFinite x = true)
      (fun e => e.isFinite = true) (fun g => ∀ x ∈ g.listed, Scalar.isFinite x = true) where
  initial := by
    simp [GraphicsState.forall_listed, GraphicsState.initial, Color.gray,
      FiniteScalar.isFinite_zero]
  same hsame hg := by
    rw [GraphicsState.listed, hsame.dashArray, hsame.fillColor, hsame.strokeColor]
    exact hg
  clear hg := by
    obtain ⟨hdash, hfill, hstroke⟩ := GraphicsState.forall_listed.1 hg
    exact GraphicsState.forall_listed.2
      ⟨hdash, GraphicsState.isFinite_clearFillPattern hfill, hstroke⟩
  write _ htaken hwrites hg := by
    obtain ⟨hdash, hfill, hstroke⟩ := GraphicsState.forall_listed.1 hg
    refine GraphicsState.forall_listed.2
      ⟨?_, hwrites.fill.isFinite htaken hfill, hwrites.stroke.isFinite htaken hstroke⟩
    rcases hwrites.dash with h | h
    · rw [h]
      exact hdash
    · rw [h]
      exact htaken
  extGState {e g} he hg := by
    obtain ⟨hdash, hcolors⟩ := GraphicsState.forall_listed.1 hg
    refine GraphicsState.forall_listed.2 ⟨?_, hcolors⟩
    obtain ⟨-, -, hentry⟩ := ExtGState.isFinite_iff.1 he
    change ∀ x ∈ (e.dash.map Prod.fst).getD g.dashArray, Scalar.isFinite x = true
    cases hd : e.dash with
    | none => exact hdash
    | some d => exact (hentry d hd).1

namespace Interpreter

omit [FiniteScalar K] in
/-- Only operators that set a dash array or components take numbers as they come, and what they take
is in the state that the run comes to next. -/
theorem isFinite_of_taken {options : Options K} {ts : List (Token K)} {s u : Interpreter K}
    {name : String} {op : Operator} (hmeets : Meets options ts s (.operator name) u)
    (hop : Operator.ofName? name = some op)
    (hfinite : ∀ v, ComesTo options ts s v →
      ∀ g ∈ v.stack.states, ∀ x ∈ g.listed, Scalar.isFinite x = true) :
    ∀ x ∈ op.taken u.operands u.state, Scalar.isFinite x = true := by
  intro x hx
  have hplain : op ≠ .extGState ∧ op ≠ .paintXObject := by
    refine ⟨?_, ?_⟩
    all_goals
      rintro rfl
      exact absurd hx List.not_mem_nil
  have hstep := step_apply (execute options) options hop hplain.1 hplain.2 u
  have hcomes := hmeets.comesTo_after
  rw [hstep] at hcomes
  have hlisted := hfinite _ hcomes _ List.mem_cons_self
  obtain ⟨hdash, hfill, hstroke⟩ := GraphicsState.forall_listed.1 hlisted
  rcases taken_subset options op u.operands u.cleared hx with h | h | h
  · exact hdash x h
  · exact hfill x h
  · exact hstroke x h

/-- Wherever a run comes, with finite numbers in the resources, each state on the stack has a finite
line width, miter limit, dash phase, flatness and text parameters, whatever the operands are. Dash
arrays and the components of colours are finite throughout the run exactly if no operator that the
run meets takes a number for one of these that is not finite. -/
theorem comesTo_finite (options : Options K) {resources : Resources K}
    (hentries : ∀ r name e, resources.Nests r → r.extGState? name = some e → e.isFinite = true)
    {start : Interpreter K} (hstart : Starts options resources start) (ts : List (Token K)) :
    (∀ u, ComesTo options ts start u →
      ∀ g ∈ u.stack.states, ∀ x ∈ g.numbers, Scalar.isFinite x = true) ∧
    ((∀ u, ComesTo options ts start u →
        ∀ g ∈ u.stack.states, ∀ x ∈ g.listed, Scalar.isFinite x = true) ↔
      ∀ name op u, Meets options ts start (.operator name) u → Operator.ofName? name = some op →
        ∀ x ∈ op.taken u.operands u.state, Scalar.isFinite x = true) := by
  refine ⟨?_, ?_, ?_⟩
  · intro u hcomes
    exact ((numbers_respected resources).always hentries hstart hcomes).1
  · exact fun hfinite name op u hmeets hop => isFinite_of_taken hmeets hop hfinite
  · intro htaken u hcomes
    refine ((listed_respected resources).comesTo hentries hstart ?_ hcomes).1
    rintro t v hmeets name op rfl hop
    exact htaken name op v hmeets hop

end Interpreter
end Finite

namespace Interpreter

def dashedEntry : ExtGState Float :=
  { ExtGState.empty with lineWidth := some 4, miterLimit := some 2, dash := some ([2, 1], 0.5) }

def takesFinite (t : Token Float) (s : Interpreter Float) : Bool :=
  match t with
  | .operator name => (Operator.ofName? name).all fun op =>
    (op.taken s.operands s.state).all Scalar.isFinite &&
      (op != .extGState || (Operand.popName s.operands).1.all fun name =>
        (s.resources.extGState? name).all fun e => e.softMask.isNone)
  | _ => true

theorem comesTo_finite_dashedEntry :
    let resources : Resources Float := { Resources.empty with extGStates := [("G", dashedEntry)] }
    let ts := tokenize (Utf8.encode
      "q /G gs [3 0.25] 1 d 5 i 2 Tc 0 -4 TD 1 0 0 rg 0.5 0.5 0.5 sc 0.25 SCN q 7 w")
    let u := (execute .standard ts (.ofPage resources .standard)).state
    u.stack.depth = 3 ∧ u.state.listed.length = 6 ∧ u.state.numbers.length = 9 ∧
      (∀ g ∈ u.stack.states, ∀ x ∈ g.numbers, x.isFinite = true) ∧
      ∀ g ∈ u.stack.states, ∀ x ∈ g.listed, x.isFinite = true := by
  intro resources ts u
  have htables : ∀ t ∈ resources.tables 0, ∀ entry ∈ t.2.extGStates, entry.2.isFinite = true := by
    decide +kernel
  have hentries : ∀ r name e, resources.Nests r → r.extGState? name = some e →
      e.isFinite = true := by
    intro r name e hr he
    exact hr.of_tables (P := fun e => e.isFinite = true) (·.extGStates) htables he
  have hquiet : ∀ s g, takesFinite (.operator "gs") s = true → ¬ SetsMask .standard s g := by
    rintro s g hcheck ⟨⟨name, e, hname, hentry, hgroup⟩, -⟩
    have hop : Operator.ofName? "gs" = some .extGState := rfl
    simp [takesFinite, hop, hname, hentry, hgroup] at hcheck
  have hchecks : holdsAlong .standard takesFinite ts (.ofPage resources .standard) = true := by
    decide +kernel
  have htaken : ∀ name op v,
      Meets .standard ts (.ofPage resources .standard) (.operator name) v →
      Operator.ofName? name = some op → ∀ x ∈ op.taken v.operands v.state, x.isFinite = true := by
    intro name op v hmeets hop
    have hcheck := hmeets.holds hchecks hquiet
    simp only [takesFinite, hop, Option.all_some, Bool.and_eq_true, List.all_eq_true] at hcheck
    exact hcheck.1
  have hcomes : ComesTo .standard ts (.ofPage resources .standard) u :=
    comesTo_execute .standard ts _
  obtain ⟨hnumbers, hlisted⟩ := comesTo_finite .standard hentries .page ts
  exact ⟨by decide +kernel, by decide +kernel, by decide +kernel, hnumbers u hcomes,
    hlisted.2 htaken u hcomes⟩

/-- A dash array and a colour take an infinite operand, a line width does not. -/
theorem comesTo_finite_infiniteOperand :
    let infinity : Token Float := .number (1.0 / 0.0)
    let ts := [.arrayStart, infinity, .arrayEnd, .number 0, .operator "d", infinity,
      .operator "sc", infinity, .operator "w"]
    let u := (execute .standard ts (.ofPage .empty .standard)).state
    ComesTo .standard ts (.ofPage .empty .standard) u ∧
      u.state.dashArray.map Float.isFinite = [false] ∧
      u.state.fillColor.components.map Float.isFinite = [false] ∧ u.state.lineWidth = 1 := by
  intro infinity ts u
  exact ⟨comesTo_execute .standard ts _, by decide +kernel, by decide +kernel, by decide +kernel⟩

end Interpreter
end ContentStream
