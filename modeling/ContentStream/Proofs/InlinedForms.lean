import Mathlib
import ContentStream.Proofs.FormNames
import ContentStream.Proofs.ExactArithmetic
import ContentStream.Proofs.NestedArrays

set_option autoImplicit false

namespace ContentStream
variable {K : Type}

def textOpen (isOpen : Bool) : Token K → Bool
  | .operator name => if name = "BT" then true else if name = "ET" then false else isOpen
  | _ => isOpen

/-- Content that draws no entry, restores just the states that it has saved and closes its text
objects. -/
structure SelfContained (ts : List (Token K)) : Prop where
  plain : ∀ t ∈ ts, t ≠ .operator "Do"
  balanced : ts.foldlM ownSaves? 0 = some 0
  closed : ts.foldl textOpen false = false

namespace Interpreter
variable [Scalar K] {options : Options K}

theorem Stepped.saved {run : Run K} {s : Interpreter K} {t : Token K} {r : Outcome K}
    (h : Stepped run options s t r) (ht : t ≠ .operator "Do") {own base : List (GraphicsState K)}
    {m : Nat} (hm : ownSaves? own.length t = some m) (hs : s.stack.saved = own ++ base) :
    ∃ own', own'.length = m ∧ r.state.stack.saved = own' ++ base := by
  have hkept : ∀ u : Interpreter K, u.stack.saved = s.stack.saved → own.length = m →
      ∃ own', own'.length = m ∧ u.stack.saved = own' ++ base :=
    fun u hu hlength => ⟨own, hlength, hu.trans hs⟩
  cases h with
  | operand hoperand =>
    have hn := Option.some.inj ((ownSaves?_operand hoperand own.length).symm.trans hm)
    exact hkept _ (congrArg StateStack.saved (read_stack t s)) hn
  | save =>
    obtain rfl : own.length + 1 = m := by simpa [ownSaves?] using hm
    exact ⟨s.stack.current :: own, rfl, congrArg (s.stack.current :: ·) hs⟩
  | restore =>
    have hn := ownSaves?_restore hm
    obtain ⟨g, own', rfl⟩ := List.exists_cons_of_length_eq_add_one hn
    refine ⟨own', Nat.succ_inj.1 hn, ?_⟩
    change s.stack.pop.saved = own' ++ base
    rw [StateStack.saved_pop, hs]
    rfl
  | plain hchanges hsave hrestore =>
    have hn := Option.some.inj ((ownSaves?_other hsave hrestore own.length).symm.trans hm)
    exact hkept _ hchanges.saved hn
  | fatal hchanges _ =>
    have hn : own.length = m := by simpa [ownSaves?] using hm
    exact hkept _ hchanges.saved hn
  | image _ => exact absurd rfl ht
  | form _ => exact absurd rfl ht

theorem execute_saved {ts : List (Token K)} (hts : ∀ t ∈ ts, t ≠ .operator "Do")
    {s : Interpreter K} (hr : (execute options ts s).fault = none)
    {own base : List (GraphicsState K)} {m : Nat} (hm : ts.foldlM ownSaves? own.length = some m)
    (hs : s.stack.saved = own ++ base) :
    ∃ own', own'.length = m ∧ (execute options ts s).state.stack.saved = own' ++ base := by
  induction ts generalizing s own with
  | nil =>
    rw [execute_nil]
    exact ⟨own, by simpa using hm, hs⟩
  | cons t ts ih =>
    obtain ⟨n, hn, hm⟩ := Option.bind_eq_some_iff.1 (List.foldlM_cons.symm.trans hm)
    obtain ⟨own', rfl, hs'⟩ := (stepped (execute options) options t s).saved
      (hts t List.mem_cons_self) hn hs
    obtain ⟨-, hrest⟩ := execute_cons_unfaulted hr
    rw [hrest] at hr ⊢
    exact ih (fun t' h => hts t' (List.mem_cons_of_mem _ h)) hr hm hs'

theorem saved_of_ownSaves {ts : List (Token K)} (hts : ∀ t ∈ ts, t ≠ .operator "Do")
    (hown : ts.foldlM ownSaves? 0 = some 0) {s : Interpreter K}
    (hok : (execute options ts s).fault = none) :
    (execute options ts s).state.stack.saved = s.stack.saved := by
  have hbalanced : ts.foldlM ownSaves? ([] : List (GraphicsState K)).length = some 0 := hown
  obtain ⟨own, hlength, hsaved⟩ := execute_saved hts hok hbalanced (List.nil_append _).symm
  rw [hsaved, List.eq_nil_of_length_eq_zero hlength, List.nil_append]

theorem saved_of_selfContained {ts : List (Token K)} (h : SelfContained ts) {s : Interpreter K}
    (hok : (execute options ts s).fault = none) :
    (execute options ts s).state.stack.saved = s.stack.saved :=
  saved_of_ownSaves h.plain h.balanced hok

theorem endText_isOpen (s : Interpreter K) : s.endText.text.isOpen = false := by
  unfold endText
  dsimp only
  split <;> rfl

theorem Performed.isOpen {run : Run K} {s : Interpreter K} {t : Token K} {r : Outcome K}
    (h : Performed run options s t r)
    (hform : t = .operator "Do" → ∀ name form, ¬ DrawsForm options s name form) :
    r.state.text.isOpen = textOpen s.text.isOpen t := by
  have hkept : ∀ name, name ≠ "BT" → name ≠ "ET" →
      textOpen s.text.isOpen (.operator name : Token K) = s.text.isOpen := by
    intro name hbegin hend
    simp only [textOpen, if_neg hbegin, if_neg hend]
  cases h with
  | operand hoperand =>
    have htext : (s.read t).text = s.text := by rw [read_frame]
    change (s.read t).text.isOpen = _
    rw [htext]
    cases t with
    | operator name => exact absurd hoperand (by simp [Token.isOperator])
    | _ => rfl
  | unknown hop =>
    refine (hkept _ ?_ ?_).symm
    · rintro rfl
      exact absurd hop (by decide)
    · rintro rfl
      exact absurd hop (by decide)
  | @apply name op hop hext hpaint =>
    by_cases hbegin : op = .beginText
    · subst hbegin
      obtain rfl : name = "BT" := Operator.ofName?_inj hop rfl
      rfl
    by_cases hend : op = .endText
    · subst hend
      obtain rfl : name = "ET" := Operator.ofName?_inj hop rfl
      exact endText_isOpen s.cleared
    have hsame := (apply_footprint options op s.operands s.cleared).isOpen hbegin hend
    refine hsame.trans (hkept name ?_ ?_).symm
    · rintro rfl
      exact hbegin (Option.some.inj (hop.symm.trans rfl))
    · rintro rfl
      exact hend (Option.some.inj (hop.symm.trans rfl))
  | extGState _ hframe =>
    rw [hframe]
    rfl
  | idle | image _ => rfl
  | form hdraws => exact absurd hdraws (hform rfl _ _)

theorem execute_isOpen {ts : List (Token K)} (hts : ∀ t ∈ ts, t ≠ .operator "Do")
    {s : Interpreter K} (hr : (execute options ts s).fault = none) :
    (execute options ts s).state.text.isOpen = ts.foldl textOpen s.text.isOpen := by
  induction ts generalizing s with
  | nil =>
    rw [execute_nil]
    rfl
  | cons t ts ih =>
    have hstep := (performed (execute options) options t s).isOpen fun hform =>
      absurd hform (hts t List.mem_cons_self)
    obtain ⟨-, hrest⟩ := execute_cons_unfaulted hr
    rw [hrest] at hr ⊢
    rw [ih (fun t' h => hts t' (List.mem_cons_of_mem _ h)) hr, hstep]
    rfl

theorem isOpen_of_selfContained {ts : List (Token K)} (h : SelfContained ts) {s : Interpreter K}
    (hclosed : s.text.isOpen = false) (hok : (execute options ts s).fault = none) :
    (execute options ts s).state.text.isOpen = false := by
  rw [execute_isOpen h.plain hok, hclosed]
  exact h.closed

end Interpreter

/-- The tokens that a form begins with where it is written out. -/
def FormXObject.opening [Scalar K] (form : FormXObject K) : List (Token K) :=
  let m := form.matrix
  let r := form.bbox
  [.operator "q", .number m.a, .number m.b, .number m.c, .number m.d, .number m.e, .number m.f,
    .operator "cm", .number r.x0, .number r.y0, .number (r.x1 - r.x0), .number (r.y1 - r.y0),
    .operator "re", .operator "W"]

def FormXObject.inlined [Scalar K] (form : FormXObject K) : List (Token K) :=
  form.opening ++ (tokenize form.content ++ [.operator "Q"])

section Exact
variable [ExactField K]

theorem pathBounds_rect (r : Rect K) (m : Transform K) :
    pathBounds [.rect r.x0 r.y0 (r.x1 - r.x0) (r.y1 - r.y0)] m = m.applyRect r := by
  have hpoints : (Segment.rect r.x0 r.y0 (r.x1 - r.x0) (r.y1 - r.y0)).points = r.corners := by
    simp only [Segment.points, Rect.corners, add_sub_cancel]
  unfold pathBounds Transform.applyRect
  rw [List.flatMap_singleton, hpoints]

theorem Rect.extend_ordered (r : Rect K) (p : Point K) :
    (r.extend p).x0 ≤ (r.extend p).x1 ∧ (r.extend p).y0 ≤ (r.extend p).y1 := by
  simp only [Rect.extend, Scalar.min_eq, Scalar.max_eq]
  exact ⟨(min_le_right _ _).trans (le_max_right _ _), (min_le_right _ _).trans (le_max_right _ _)⟩

namespace Interpreter
variable {options : Options K}

/-- Without a budget for pixels a rectangle clips to its bounds, as a form does. -/
theorem clipState_rect (hbudget : options.clipBudget = 0) (r : Rect K) (rule : FillRule)
    (g : GraphicsState K) :
    clipState options [.rect r.x0 r.y0 (r.x1 - r.x0) (r.y1 - r.y0)] rule g =
      { g with clipBBox := g.clipBBox.intersect (g.ctm.applyRect r) } := by
  obtain ⟨hx, hy⟩ : (g.ctm.applyRect r).x0 ≤ (g.ctm.applyRect r).x1 ∧
      (g.ctm.applyRect r).y0 ≤ (g.ctm.applyRect r).y1 := Rect.extend_ordered _ _
  have hbounds : (!(g.ctm.applyRect r).isFinite ||
      decide ((g.ctm.applyRect r).x1 < (g.ctm.applyRect r).x0) ||
      decide ((g.ctm.applyRect r).y1 < (g.ctm.applyRect r).y0)) = false := by
    simp [Rect.isFinite, Scalar.isFinite, hx, hy]
  unfold clipState
  rw [pathBounds_rect]
  dsimp only
  rw [hbounds, hbudget]
  rfl

theorem execute_opening (hbudget : options.clipBudget = 0) {form : FormXObject K}
    (hresources : form.resources = none) {s : Interpreter K} (hpath : s.path = #[])
    (htext : s.text = .initial) (name : String) (ts : List (Token K)) :
    execute options (form.opening ++ ts) s =
      execute options ts ((s.cleared.enterForm name form).withFormStack s.formStack) := by
  let m := form.matrix
  let r := form.bbox
  let outline : Segment K := .rect r.x0 r.y0 (r.x1 - r.x0) (r.y1 - r.y0)
  let saved : Interpreter K := { s with stack := s.stack.push }
  let placed : Interpreter K := saved.modifyState fun g => { g with ctm := m.compose g.ctm }
  have hsave : Operator.ofName? "q" = some .save := rfl
  have hclip : Operator.ofName? "W" = some .clip := rfl
  have hclipped : (placed.cleared.addSegment outline).clipPath options .nonZero =
      (s.cleared.enterForm name form).withFormStack s.formStack := by
    have hsegments : (placed.cleared.addSegment outline).path = #[outline] := by
      change s.path.push outline = _
      rw [hpath]
      rfl
    have hbounds : clipState options [outline] .nonZero = fun g =>
        { g with clipBBox := g.clipBBox.intersect (g.ctm.applyRect r) } :=
      funext (clipState_rect hbudget r .nonZero)
    unfold clipPath enterForm
    rw [hsegments, hresources, ← htext]
    change ({ placed.cleared with path := #[] } : Interpreter K).modifyState
      (clipState options [outline] .nonZero) = _
    rw [hbounds]
    rfl
  calc
    execute options (form.opening ++ ts) s
      = execute options ([m.a, m.b, m.c, m.d, m.e, m.f].map .number ++ .operator "cm" ::
          ([r.x0, r.y0, r.x1 - r.x0, r.y1 - r.y0].map .number ++ .operator "re" ::
            .operator "W" :: ts)) saved.cleared :=
        execute_operator hsave (by decide) (by decide) _ s
    _ = execute options ([r.x0, r.y0, r.x1 - r.x0, r.y1 - r.y0].map .number ++ .operator "re" ::
            .operator "W" :: ts) placed.cleared :=
        execute_call .concat rfl (by decide) (by decide)
          ([m.a, m.b, m.c, m.d, m.e, m.f].map .number) _ rfl
    _ = execute options (.operator "W" :: ts) (placed.cleared.addSegment outline) :=
        execute_call .rect rfl (by decide) (by decide)
          ([r.x0, r.y0, r.x1 - r.x0, r.y1 - r.y0].map .number) _ rfl
    _ = execute options ts ((placed.cleared.addSegment outline).clipPath options .nonZero) :=
        execute_operator hclip (by decide) (by decide) _ _
    _ = _ := by rw [hclipped]

theorem afterForm_closed {s : Interpreter K} {r : Outcome K} (hr : r.fault = none)
    (hclosed : r.state.text.isOpen = false) :
    (s.afterForm r).fault = none ∧ (s.afterForm r).state.elements = r.state.elements := by
  have hend : r.state.endOpenText = r.state := by
    unfold endOpenText
    rw [hclosed]
    rfl
  unfold afterForm leaveForm
  rw [hr, hend]
  exact ⟨rfl, rfl⟩

theorem execute_named_form {s : Interpreter K} {name : String} {form : FormXObject K}
    (hdraws : DrawsForm options (s.read (.name name)) name form) :
    execute options [.name name, .operator "Do"] s = s.cleared.afterForm
      (execute options (tokenize form.content) (s.cleared.enterForm name form)) := by
  have hname : s.step (execute options) options (.name name) = .ok (s.read (.name name)) := rfl
  have hcleared : (s.read (.name name)).cleared = s.cleared := by
    rw [read_frame]
    rfl
  rw [execute_cons_ok hname, execute_singleton, step_form hdraws, hcleared]

/-- Written out, the content runs as it does inside the form, and then the state is restored. -/
theorem execute_inlined (hbudget : options.clipBudget = 0) {s : Interpreter K}
    (hpath : s.path = #[]) (htext : s.text = .initial) (name : String) {form : FormXObject K}
    (hresources : form.resources = none)
    (hplain : ∀ t ∈ tokenize (K := K) form.content, t ≠ .operator "Do") :
    execute options form.inlined s =
      let inside := execute options (tokenize form.content) (s.cleared.enterForm name form)
      if inside.fault.isSome then inside.withFormStack s.formStack
      else .ok { (inside.state.withFormStack s.formStack).cleared with
        stack := inside.state.stack.pop } := by
  have hrestore : Operator.ofName? "Q" = some .restore := rfl
  unfold FormXObject.inlined
  rw [execute_opening hbudget hresources hpath htext name, execute_append,
    execute_withFormStack s.formStack hplain]
  dsimp only
  rw [execute_operator hrestore (by decide) (by decide), execute_nil]
  rfl

/-- Drawing the form and writing it out end in the same fault, or else draw the same elements and
leave the states on the stack as they were. -/
theorem execute_form_inlined (hbudget : options.clipBudget = 0) {s : Interpreter K}
    (hpath : s.path = #[]) (htext : s.text = .initial) {name : String} {form : FormXObject K}
    (hdraws : DrawsForm options (s.read (.name name)) name form)
    (hresources : form.resources = none)
    (hcontent : SelfContained (tokenize (K := K) form.content)) :
    let drawn := execute options [.name name, .operator "Do"] s
    let inlined := execute options form.inlined s
    drawn.fault = inlined.fault ∧
      (drawn.fault = none → drawn.state.elements = inlined.state.elements ∧
        drawn.state.stack = s.stack ∧ inlined.state.stack = s.stack) := by
  intro drawn inlined
  let inside := execute options (tokenize form.content) (s.cleared.enterForm name form)
  have hdrawn : drawn = s.cleared.afterForm inside := execute_named_form hdraws
  have hinlined : inlined = if inside.fault.isSome then inside.withFormStack s.formStack
      else .ok { (inside.state.withFormStack s.formStack).cleared with
        stack := inside.state.stack.pop } :=
    execute_inlined hbudget hpath htext name hresources hcontent.plain
  -- A fault in the content ends both runs. Without one the content has left its caller's states at
  -- the bottom of the stack, where `Do` cuts it and `Q` pops it.
  cases hfault : inside.fault with
  | some fault =>
    have hsame : drawn.fault = some fault := by
      have hfatal : inside.fault.any Fault.isFatal = true := by
        rw [hfault]
        exact execute_isFatal hfault
      rw [hdrawn, afterForm, if_pos hfatal]
      exact hfault
    refine ⟨?_, fun hnone => absurd (hsame.symm.trans hnone) (by simp)⟩
    rw [hsame, hinlined, hfault]
    exact hfault.symm
  | none =>
    have hclosed : inside.state.text.isOpen = false := isOpen_of_selfContained hcontent rfl hfault
    have hsaved : inside.state.stack.saved = s.stack.states :=
      saved_of_selfContained hcontent hfault
    obtain ⟨hnone, helements⟩ := afterForm_closed (s := s.cleared) hfault hclosed
    rw [hinlined, hfault, hdrawn]
    refine ⟨hnone, fun _ => ⟨helements, ?_, StateStack.pop_of_saved hsaved⟩⟩
    refine (afterForm_stack_eq_iff s.cleared inside).2 ?_
    change s.stack.states <:+ inside.state.stack.current :: inside.state.stack.saved
    rw [hsaved]
    exact List.suffix_cons _ _

def stampForm : FormXObject ℚ :=
  ⟨⟨0, 0, 8, 6⟩, ⟨2, 0, 0, 2, 1, 1⟩, none,
    Utf8.encode "q 1 0 1 1 0 0 cm 1 1 4 9 re W 0 0 9 9 re f Q BT 3 Tc ET 2 w 0 0 m 5 5 l S"⟩

theorem execute_form_inlined_stamp :
    let page := Interpreter.ofPage
      { Resources.empty with xObjects := [("F", .form stampForm)] } .standard
    let s := (execute .standard [.operator "q", .number 3, .operator "w"] page).state
    let drawn := execute .standard [.name "F", .operator "Do"] s
    let inlined := execute .standard stampForm.inlined s
    drawn.fault = none ∧ drawn.state.elements.size = 2 ∧
      drawn.state.elements = inlined.state.elements ∧
      drawn.state.stack = s.stack ∧ inlined.state.stack = s.stack := by
  intro page s drawn inlined
  have hdraws : DrawsForm .standard (s.read (.name "F")) "F" stampForm :=
    ⟨by decide +kernel, rfl, by decide +kernel, by decide +kernel⟩
  have hcontent : SelfContained (tokenize (K := ℚ) stampForm.content) :=
    ⟨by decide +kernel, by decide +kernel, by decide +kernel⟩
  have hnone : drawn.fault = none := Option.isNone_iff_eq_none.1 (by decide +kernel)
  obtain ⟨-, hsame⟩ := execute_form_inlined rfl rfl rfl hdraws rfl hcontent
  exact ⟨hnone, by decide +kernel, hsame hnone⟩

end Interpreter
end Exact
end ContentStream
