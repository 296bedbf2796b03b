import Mathlib
import ContentStream.Proofs.Execution

set_option autoImplicit false

namespace ContentStream.Interpreter
variable {K : Type}

/-- A list of elements with the entries that were in force where the images among them were
drawn: exactly the images that the execution draws. -/
structure Resolved (Drawn : Element K → ImageXObject → Prop)
    (l : List (Element K × Option ImageXObject)) : Prop where
  image : ∀ e i, (e, some i) ∈ l ↔ Drawn e i
  other : ∀ e, (e, none) ∈ l → ∀ i, e ≠ .image i

namespace Resolved
variable {Drawn Drawn' : Element K → ImageXObject → Prop}
  {l l' : List (Element K × Option ImageXObject)}

theorem congr (h : Resolved Drawn l) (hiff : ∀ e i, Drawn e i ↔ Drawn' e i) :
    Resolved Drawn' l :=
  ⟨fun e i => (h.image e i).trans (hiff e i), h.other⟩

theorem append (h : Resolved Drawn l) (h' : Resolved Drawn' l') :
    Resolved (fun e i => Drawn e i ∨ Drawn' e i) (l ++ l') where
  image e i := by rw [List.mem_append, h.image, h'.image]
  other e he := by
    rcases List.mem_append.1 he with he | he
    · exact h.other e he
    · exact h'.other e he

theorem of_elements {es : List (Element K)} (h : ∀ e ∈ es, ∀ i, e ≠ .image i) :
    Resolved (fun _ _ => False) (es.map fun e => (e, none)) where
  image e i := by simp
  other e he := by
    obtain ⟨e', he', heq⟩ := List.mem_map.1 he
    obtain rfl := congrArg Prod.fst heq
    exact h e' he'

end Resolved

variable [Scalar K]

/-- Executing the tokens from the first state comes to a token in the second one, in the content
itself or in that of a form. -/
inductive Visits (options : Options K) :
    List (Token K) → Interpreter K → Token K → Interpreter K → Prop
  | here (t : Token K) (ts : List (Token K)) (s : Interpreter K) : Visits options (t :: ts) s t s
  | next {t t' : Token K} {ts : List (Token K)} {s u : Interpreter K}
      (hok : (s.step (execute options) options t).fault = none)
      (h : Visits options ts (s.step (execute options) options t).state t' u) :
      Visits options (t :: ts) s t' u
  | form {name : String} {form : FormXObject K} {t' : Token K} {ts : List (Token K)}
      {s u : Interpreter K} (hdraws : DrawsForm options s name form)
      (h : Visits options (tokenize form.content) (s.cleared.enterForm name form) t' u) :
      Visits options (.operator "Do" :: ts) s t' u

/-- A check of a run that comes to no `Do` at all, made before each of its tokens. -/
def holdsAlong (options : Options K) (check : Token K → Interpreter K → Bool) :
    List (Token K) → Interpreter K → Bool
  | [], _ => true
  | t :: ts, s =>
    let quiet := match t with
      | .operator name => name != "Do"
      | _ => true
    quiet && check t s && holdsAlong options check ts (s.step (execute options) options t).state

theorem Visits.holds {options : Options K} {check : Token K → Interpreter K → Bool}
    {ts : List (Token K)} {s u : Interpreter K} {t : Token K} (h : Visits options ts s t u)
    (hcheck : holdsAlong options check ts s = true) : t ≠ .operator "Do" ∧ check t u = true := by
  induction h with
  | here t ts s =>
    simp only [holdsAlong, Bool.and_eq_true] at hcheck
    refine ⟨?_, hcheck.1.2⟩
    rintro rfl
    exact absurd hcheck.1.1 (by simp)
  | next _ _ ih =>
    simp only [holdsAlong, Bool.and_eq_true] at hcheck
    exact ih hcheck.2
  | form _ _ =>
    simp only [holdsAlong, Bool.and_eq_true] at hcheck
    exact absurd hcheck.1.1 (by decide)

def Draws (options : Options K) (ts : List (Token K)) (s : Interpreter K) (e : Element K)
    (i : ImageXObject) : Prop :=
  ∃ u name, Visits options ts s (.operator "Do") u ∧ DrawsImage u name i ∧
    e = .image ⟨withoutSlashes name, u.state⟩

def StepDraws (options : Options K) (t : Token K) (s : Interpreter K) (e : Element K)
    (i : ImageXObject) : Prop :=
  t = .operator "Do" ∧
    ((∃ name, DrawsImage s name i ∧ e = .image ⟨withoutSlashes name, s.state⟩) ∨
      ∃ name form, DrawsForm options s name form ∧
        Draws options (tokenize form.content) (s.cleared.enterForm name form) e i)

theorem not_draws_nil {options : Options K} {s : Interpreter K} {e : Element K}
    {i : ImageXObject} : ¬ Draws options [] s e i := by
  rintro ⟨u, name, hvisits, -⟩
  cases hvisits

theorem draws_cons_iff {options : Options K} {t : Token K} {ts : List (Token K)}
    {s : Interpreter K} {e : Element K} {i : ImageXObject} :
    Draws options (t :: ts) s e i ↔ StepDraws options t s e i ∨
      (s.step (execute options) options t).fault = none ∧
        Draws options ts (s.step (execute options) options t).state e i := by
  constructor
  · rintro ⟨u, name, hvisits, himage, he⟩
    cases hvisits with
    | here => exact .inl ⟨rfl, .inl ⟨name, himage, he⟩⟩
    | next hok h => exact .inr ⟨hok, u, name, h, himage, he⟩
    | form hdraws h => exact .inl ⟨rfl, .inr ⟨_, _, hdraws, u, name, h, himage, he⟩⟩
  · rintro (⟨rfl, ⟨name, himage, he⟩ | ⟨_, _, hdraws, u, name, h, himage, he⟩⟩ | ⟨hok, h⟩)
    · exact ⟨s, name, .here _ _ _, himage, he⟩
    · exact ⟨u, name, .form hdraws h, himage, he⟩
    · obtain ⟨u, name, hvisits, himage, he⟩ := h
      exact ⟨u, name, .next hok hvisits, himage, he⟩

theorem DrawsImage.stepDraws_iff {options : Options K} {s : Interpreter K} {name : String}
    {i j : ImageXObject} {e : Element K} (h : DrawsImage s name i) :
    StepDraws options (.operator "Do") s e j ↔
      j = i ∧ e = .image ⟨withoutSlashes name, s.state⟩ := by
  constructor
  · rintro ⟨-, ⟨name', h', he⟩ | ⟨name', form, h', -⟩⟩
    · obtain rfl := Option.some.inj (h.operand.symm.trans h'.operand)
      have hentry := h.entry.symm.trans h'.entry
      simp only [Option.some.injEq, XObject.image.injEq] at hentry
      exact ⟨hentry.symm, he⟩
    · exact absurd h' h.not_drawsForm
  · rintro ⟨rfl, he⟩
    exact ⟨rfl, .inl ⟨name, h, he⟩⟩

theorem DrawsForm.stepDraws_iff {options : Options K} {s : Interpreter K} {name : String}
    {form : FormXObject K} {e : Element K} {i : ImageXObject} (h : DrawsForm options s name form) :
    StepDraws options (.operator "Do") s e i ↔
      Draws options (tokenize form.content) (s.cleared.enterForm name form) e i := by
  constructor
  · rintro ⟨-, ⟨name', h', -⟩ | ⟨name', form', h', hdraws⟩⟩
    · exact absurd h h'.not_drawsForm
    · obtain rfl := Option.some.inj (h.operand.symm.trans h'.operand)
      have hentry := h.entry.symm.trans h'.entry
      simp only [Option.some.injEq, XObject.form.injEq] at hentry
      subst hentry
      exact hdraws
  · intro hdraws
    exact ⟨rfl, .inr ⟨name, form, h, hdraws⟩⟩

theorem emit_image (e : ImageElement K) (s : Interpreter K) :
    (s.emit (.image e)).elements.toList = s.elements.toList ++ [.image e] :=
  Array.toList_push

theorem emit_other {e : Element K} (he : ∀ i, e ≠ .image i) (s : Interpreter K) :
    ∃ e', (∀ i, e' ≠ .image i) ∧
      (s.emit e).elements.toList = s.elements.toList ++ [e'] := by
  refine ⟨drawn e, ?_, Array.toList_push⟩
  refine drawn_induction (fun e => ∀ i, e ≠ .image i) he ?_
  intro r _ i
  simp

theorem Changes.elements {s t : Interpreter K} (h : Changes s t) :
    ∃ es : List (Element K), (∀ e ∈ es, ∀ i, e ≠ .image i) ∧
      t.elements.toList = s.elements.toList ++ es := by
  induction h with
  | trans _ _ ih ih' =>
    obtain ⟨es, hes, helements⟩ := ih
    obtain ⟨es', hes', helements'⟩ := ih'
    refine ⟨es ++ es', ?_, by rw [helements', helements, List.append_assoc]⟩
    intro e he
    rcases List.mem_append.1 he with he | he
    · exact hes e he
    · exact hes' e he
  | emit e he s =>
    obtain ⟨e', he', helements⟩ := emit_other he s
    exact ⟨[e'], by simpa using he', helements⟩
  | _ => exact ⟨[], by simp, (List.append_nil _).symm⟩

theorem Stepped.elements {run : Run K} {options : Options K} {s : Interpreter K} {t : Token K}
    {r : Outcome K} (h : Stepped run options s t r)
    (himage : ∀ name i, t = .operator "Do" → ¬ DrawsImage s name i)
    (hform : ∀ name form, t = .operator "Do" → ¬ DrawsForm options s name form) :
    ∃ es : List (Element K), (∀ e ∈ es, ∀ i, e ≠ .image i) ∧
      r.state.elements.toList = s.elements.toList ++ es := by
  cases h with
  | operand _ =>
    refine ⟨[], by simp, ?_⟩
    change (s.read t).elements.toList = _
    rw [read_frame, List.append_nil]
  | save | restore => exact ⟨[], by simp, (List.append_nil _).symm⟩
  | plain h _ _ => exact h.elements
  | fatal h _ => exact h.elements
  | image h => exact absurd h (himage _ _ rfl)
  | form h => exact absurd h (hform _ _ rfl)

theorem afterForm_resolved {s : Interpreter K} {name : String}
    {form : FormXObject K} {r : Outcome K} {l : List (Element K × Option ImageXObject)}
    {Drawn : Element K → ImageXObject → Prop} (hl : Resolved Drawn l)
    (helements : r.state.elements.toList =
      (s.enterForm name form).elements.toList ++ l.map Prod.fst) :
    ∃ l, Resolved Drawn l ∧
      (s.afterForm r).state.elements.toList = s.elements.toList ++ l.map Prod.fst := by
  obtain ⟨es, hes, htext⟩ := (endOpenText_changes r.state).elements
  refine ⟨l ++ es.map fun e => (e, none), (hl.append (.of_elements hes)).congr (by simp), ?_⟩
  have hleave : (s.leaveForm r.state).elements.toList =
      s.elements.toList ++ (l ++ es.map fun e => (e, none)).map Prod.fst := by
    change r.state.endOpenText.elements.toList = _
    rw [htext, helements, List.map_append, List.append_assoc, List.map_map]
    change _ = _ ++ (_ ++ es.map id)
    rw [List.map_id]
    rfl
  unfold afterForm
  split <;> exact hleave

theorem step_resolved {options : Options K} (t : Token K) (s : Interpreter K)
    (hform : ∀ name form, DrawsForm options s name form →
      ∃ l, Resolved (Draws options (tokenize form.content) (s.cleared.enterForm name form)) l ∧
        (execute options (tokenize form.content)
            (s.cleared.enterForm name form)).state.elements.toList =
          (s.cleared.enterForm name form).elements.toList ++ l.map Prod.fst) :
    ∃ l, Resolved (StepDraws options t s) l ∧
      (s.step (execute options) options t).state.elements.toList =
        s.elements.toList ++ l.map Prod.fst := by
  by_cases himage : ∃ name i, t = .operator "Do" ∧ DrawsImage s name i
  · obtain ⟨name, i, rfl, himage⟩ := himage
    refine ⟨[(.image ⟨withoutSlashes name, s.state⟩, some i)], ⟨fun e j => ?_, by simp⟩, ?_⟩
    · rw [himage.stepDraws_iff]
      simp [and_comm]
    · rw [step_image himage]
      exact emit_image _ _
  by_cases hdraws : ∃ name form, t = .operator "Do" ∧ DrawsForm options s name form
  · obtain ⟨name, form, rfl, hdraws⟩ := hdraws
    obtain ⟨l, hl, helements⟩ := hform name form hdraws
    obtain ⟨l', hl', helements'⟩ := afterForm_resolved hl helements
    refine ⟨l', hl'.congr fun e i => hdraws.stepDraws_iff.symm, ?_⟩
    rw [step_form hdraws]
    exact helements'
  have hother := (stepped (execute options) options t s).elements
    (fun name i ht h => himage ⟨name, i, ht, h⟩) (fun name form ht h => hdraws ⟨name, form, ht, h⟩)
  obtain ⟨es, hes, helements⟩ := hother
  refine ⟨es.map fun e => (e, none), (Resolved.of_elements hes).congr fun e i => ?_, ?_⟩
  · refine ⟨False.elim, ?_⟩
    rintro ⟨ht, ⟨name, h, -⟩ | ⟨name, form, h, -⟩⟩
    · exact himage ⟨name, i, ht, h⟩
    · exact hdraws ⟨name, form, ht, h⟩
  · rw [helements, List.map_map]
    change _ = _ ++ es.map id
    rw [List.map_id]

/-- The elements of an execution: those before it, then its own in the order of drawing. -/
theorem execute_resolved (options : Options K) (ts : List (Token K)) (s : Interpreter K) :
    ∃ l, Resolved (Draws options ts s) l ∧
      (execute options ts s).state.elements.toList = s.elements.toList ++ l.map Prod.fst := by
  induction ts, s using execute_induction options with
  | nil s =>
    refine ⟨[], ⟨fun e i => ?_, by simp⟩, ?_⟩
    · simpa using not_draws_nil
    · rw [execute_nil]
      exact (List.append_nil _).symm
  | cons t ts s ihform ihnext =>
    have hstep : ∃ l, Resolved (StepDraws options t s) l ∧
        (s.step (execute options) options t).state.elements.toList =
          s.elements.toList ++ l.map Prod.fst :=
      step_resolved t s ihform
    obtain ⟨l, hl, helements⟩ := hstep
    rw [execute_cons]
    dsimp only
    cases hfault : (s.step (execute options) options t).fault with
    | some fault =>
      refine ⟨l, hl.congr fun e i => ?_, helements⟩
      rw [draws_cons_iff, hfault]
      simp
    | none =>
      obtain ⟨l', hl', helements'⟩ := ihnext
      refine ⟨l ++ l', (hl.append hl').congr fun e i => ?_, ?_⟩
      · rw [draws_cons_iff, hfault]
        simp
      · rw [if_neg (by simp), helements', helements, List.map_append, List.append_assoc]

end ContentStream.Interpreter
