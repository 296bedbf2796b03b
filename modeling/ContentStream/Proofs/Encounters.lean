import Mathlib
import ContentStream.Proofs.Faults
import ContentStream.Proofs.TextStates

set_option autoImplicit false

namespace ContentStream.Interpreter
variable {K : Type} [Scalar K] {options : Options K}

/-- Executing the tokens from the first state meets a token in the second one, in soft mask groups
too. -/
inductive Meets (options : Options K) :
    List (Token K) → Interpreter K → Token K → Interpreter K → Prop
  | content {ts : List (Token K)} {s u : Interpreter K} {t : Token K}
      (h : Visits options ts s t u) : Meets options ts s t u
  | group {ts : List (Token K)} {s u v : Interpreter K} {t : Token K} {g : SoftMaskGroup K}
      (h : Visits options ts s (.operator "gs") v) (hsets : SetsMask options v g)
      (h' : Meets options (tokenize g.content) (ofGroup g.resources (v.maskDepth + 1)) t u) :
      Meets options ts s t u

theorem Visits.comesTo {ts : List (Token K)} {s u v : Interpreter K} {t : Token K}
    (h : Visits options ts s t u) (hafter : ∀ us, ComesTo options (t :: us) u v) :
    ComesTo options ts s v := by
  induction h with
  | here t ts s => exact hafter ts
  | next hok _ ih => exact .next hok (ih hafter)
  | form hdraws _ ih => exact .form hdraws (ih hafter)

namespace Meets
variable {ts us : List (Token K)} {s u v : Interpreter K} {t t' : Token K}

theorem here (t : Token K) (ts : List (Token K)) (s : Interpreter K) :
    Meets options (t :: ts) s t s :=
  .content (.here t ts s)

theorem next (hok : (s.step (execute options) options t).fault = none)
    (h : Meets options ts (s.step (execute options) options t).state t' u) :
    Meets options (t :: ts) s t' u := by
  cases h with
  | content h => exact .content (.next hok h)
  | group h hsets h' => exact .group (.next hok h) hsets h'

theorem inside (henters : Enters options s t us v) (h : Meets options us v t' u) :
    Meets options (t :: ts) s t' u := by
  cases henters with
  | form hdraws =>
    cases h with
    | content h => exact .content (.form hdraws h)
    | group h hsets h' => exact .group (.form hdraws h) hsets h'
  | group hsets => exact .group (.here _ ts s) hsets h

theorem comesTo_after (h : Meets options ts s t u) :
    ComesTo options ts s (u.step (execute options) options t).state := by
  induction h with
  | content h => exact h.comesTo fun us => .after _ us _
  | group h hsets _ ih => exact h.comesTo fun _ => .group hsets ih

/-- A check that is made before each token of a run, where none of them enters other content. -/
theorem holds {check : Token K → Interpreter K → Bool} (h : Meets options ts s t u)
    (hcheck : holdsAlong options check ts s = true)
    (hquiet : ∀ s g, check (.operator "gs") s = true → ¬ SetsMask options s g) :
    check t u = true := by
  cases h with
  | content h => exact (h.holds hcheck).2
  | group h hsets _ => exact absurd hsets (hquiet _ _ (h.holds hcheck).2)

end Meets

/-- What a run preserves wherever it comes. Of a token that is met it is known where, and that the
content which the token enters preserves the same. -/
structure Preserves (options : Options K) (met : Token K → Interpreter K → Prop)
    (inv : Interpreter K → Prop) : Prop where
  enter {s v : Interpreter K} {t : Token K} {us : List (Token K)}
    (henters : Enters options s t us v) (hs : inv s) : inv v
  step {s : Interpreter K} {t : Token K} (hmet : met t s)
    (hinside : ∀ us v, Enters options s t us v → inv (execute options us v).state) (hs : inv s) :
    inv (s.step (execute options) options t).state

namespace Preserves
variable {met : Token K → Interpreter K → Prop} {inv : Interpreter K → Prop}

theorem comesTo (h : Preserves options met inv) {ts : List (Token K)} {s u : Interpreter K}
    (hcomes : ComesTo options ts s u) (hmet : ∀ t v, Meets options ts s t v → met t v)
    (hs : inv s) : inv u := by
  induction ts, s using execute_entering_induction options generalizing u with
  | nil s =>
    cases hcomes
    exact hs
  | cons t ts s ihinside ihnext =>
    have hinside : ∀ us v, Enters options s t us v → ∀ w, ComesTo options us v w → inv w := by
      intro us v henters w hw
      refine ihinside us v henters hw ?_ (h.enter henters hs)
      exact fun t' v' hmeets => hmet t' v' (.inside henters hmeets)
    have hstep : inv (s.step (execute options) options t).state := by
      refine h.step (hmet t s (.here t ts s)) ?_ hs
      exact fun us v henters => hinside us v henters _ (comesTo_execute options us v)
    cases hcomes with
    | start => exact hs
    | after => exact hstep
    | next hok hnext =>
      exact ihnext hnext (fun t' v hmeets => hmet t' v (.next hok hmeets)) hstep
    | form hdraws hcomes => exact hinside _ _ (.form hdraws) u hcomes
    | group hsets hcomes => exact hinside _ _ (.group hsets) u hcomes

end Preserves

/-- `Do` on a form, drawn to its end or not or passed over, gives the path and the text back. -/
theorem step_form_frame {s : Interpreter K} {name : String} {form : FormXObject K}
    (hname : (Operand.popName s.operands).1 = some name)
    (hform : s.resources.xObject? name = some (.form form)) :
    let after := (s.step (execute options) options (.operator "Do")).state
    after.path = s.path ∧ after.text = s.text := by
  intro after
  by_cases hdraws : DrawsForm options s name form
  · have hafter : after = _ := congrArg Outcome.state (step_form hdraws)
    rw [hafter]
    exact ⟨afterForm_path s.cleared _, afterForm_text s.cleared _⟩
  · have hafter : after = s.cleared := congrArg Outcome.state (step_form_skipped hname hform hdraws)
    rw [hafter]
    exact ⟨rfl, rfl⟩

/-- Finished or stopped by a fault, a run has the resources and the names of forms that it began
with, and the elements drawn before it at the front. Each `Do` on a form that it meets, at any
depth, leaves the pending path and the text object as they were there. -/
theorem execute_context (options : Options K) (ts : List (Token K)) (s : Interpreter K) :
    let r := execute options ts s
    (r.state.resources = s.resources ∧ r.state.formStack = s.formStack ∧
      s.elements.toList <+: r.state.elements.toList) ∧
    ∀ u name form, Meets options ts s (.operator "Do") u →
      (Operand.popName u.operands).1 = some name → u.resources.xObject? name = some (.form form) →
      let after := (u.step (execute options) options (.operator "Do")).state
      ComesTo options ts s after ∧ after.path = u.path ∧ after.text = u.text := by
  intro r
  have hcontext : SameContext s r.state := execute_sameContext options ts s
  refine ⟨⟨hcontext.resources, hcontext.formStack, hcontext.elements⟩, ?_⟩
  intro u name form hmeets hname hform
  exact ⟨hmeets.comesTo_after, step_form_frame hname hform⟩

def unfinishedForm : FormXObject ℚ :=
  let masked : FormXObject ℚ :=
    ⟨⟨0, 0, 4, 4⟩, .identity, some (imageMaskTable .jpx), Utf8.encode "0 0 m BT (z) Tj /N gs"⟩
  ⟨⟨0, 0, 8, 8⟩, .identity, some { Resources.empty with xObjects := [("M", .form masked)] },
    Utf8.encode "0 0 4 4 re f 5 5 m BT 7 Tr (y) Tj /M Do"⟩

theorem execute_context_unfinishedForm :
    let resources : Resources ℚ :=
      { Resources.empty with xObjects := [("F", .form unfinishedForm)] }
    let s := (execute .standard
      (tokenize (Utf8.encode "0 0 1 1 re f 1 1 m BT /Font 12 Tf (x) Tj /F"))
      (.ofPage resources .standard)).state
    let r := execute .standard [.operator "Do"] s
    r.fault = some (.missingDecoder "JPXDecode") ∧ r.state.elements.size = 4 ∧
      s.text.runs.size = 1 ∧ s.path.size = 1 ∧ s.elements.size = 1 ∧
      r.state.resources = s.resources ∧ r.state.formStack = [] ∧
      s.elements.toList <+: r.state.elements.toList ∧ r.state.path = s.path ∧
      r.state.text = s.text := by
  intro resources s r
  obtain ⟨⟨hresources, hstack, helements⟩, hforms⟩ :=
    execute_context .standard [.operator "Do"] s
  have hform : s.resources.xObject? "F" = some (.form unfinishedForm) := by
    rw [show s.resources = resources from (execute_sameContext .standard _ _).resources]
    rfl
  obtain ⟨-, hpath, htext⟩ :=
    hforms s "F" unfinishedForm (.here _ _ s) (by decide +kernel) hform
  have hstep : r = s.step (execute .standard) .standard (.operator "Do") :=
    execute_singleton .standard _ s
  rw [← hstep] at hpath htext
  refine ⟨by decide +kernel, by decide +kernel, by decide +kernel, by decide +kernel,
    by decide +kernel, hresources, hstack.trans (by decide +kernel), helements, hpath, htext⟩

end ContentStream.Interpreter
