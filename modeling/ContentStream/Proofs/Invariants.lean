import Mathlib
import ContentStream.Proofs.Effects
import ContentStream.Proofs.Execution
import ContentStream.Proofs.StateStack

set_option autoImplicit false

/-!
# Invariants of executions

A discipline asks something of every graphics state on the stack and of every element drawn. If the
elementary effects of operators keep it, it holds wherever an execution comes through: between two
tokens, in the content of forms and in that of soft mask groups.
-/
namespace ContentStream
variable {K : Type}

namespace Resources

/-- The second table comes into force where content that uses the first one is interpreted, inside
forms or soft mask groups too. -/
inductive Nests : Resources K → Resources K → Prop
  | refl (r : Resources K) : Nests r r
  | form {r s t : Resources K} {name : String} {form : FormXObject K} (h : Nests r s)
      (hform : s.xObject? name = some (.form form)) (hown : form.resources = some t) : Nests r t
  | group {r s : Resources K} {name : String} {e : ExtGState K} {g : SoftMaskGroup K}
      (h : Nests r s) (hentry : s.extGState? name = some e)
      (hgroup : e.softMask = some (.group g)) : Nests r g.resources

theorem Nests.trans {r s t : Resources K} (h : Nests r s) (h' : Nests s t) : Nests r t := by
  induction h' with
  | refl => exact h
  | form _ hform hown ih => exact .form ih hform hown
  | group _ hentry hgroup ih => exact .group ih hentry hgroup

theorem nests_inside {r : Resources K} {name : String} {form : FormXObject K}
    (h : r.xObject? name = some (.form form)) : Nests r (form.resources.getD r) := by
  cases hown : form.resources with
  | none => exact .refl r
  | some t => exact .form (.refl r) h hown

theorem Nests.tables_subset {r t : Resources K} (h : Nests r t) :
    ∃ level, t.tables level ⊆ r.tables 0 := by
  induction h with
  | refl => exact ⟨0, List.Subset.refl _⟩
  | form _ hform hown ih =>
    obtain ⟨level, hsubset⟩ := ih
    exact ⟨level, List.Subset.trans (tables_subset_of_form hform hown level) hsubset⟩
  | group _ hentry hgroup ih =>
    obtain ⟨level, hsubset⟩ := ih
    exact ⟨level + 1, List.Subset.trans (tables_subset_of_group hentry hgroup level) hsubset⟩

/-- What holds of the entries of one kind in all tables of the tree holds of each entry that a name
finds where one of these tables is in force. -/
theorem Nests.of_tables {r t : Resources K} {α : Type} {P : α → Prop} {name : String} {x : α}
    (entries : Resources K → List (String × α))
    (h : ∀ t ∈ r.tables 0, ∀ entry ∈ entries t.2, P entry.2) (ht : r.Nests t)
    (hx : find? (entries t) name = some x) : P x := by
  obtain ⟨level, hsubset⟩ := ht.tables_subset
  exact h _ (hsubset (mem_tables_self level t)) _ (mem_of_find? hx)

end Resources

structure Discipline (K : Type) where
  entry : ExtGState K → Prop
  state : GraphicsState K → Prop
  element : Element K → Prop

namespace Discipline

def AllEntries (d : Discipline K) (r : Resources K) : Prop :=
  ∀ t name e, r.Nests t → t.extGState? name = some e → d.entry e

structure Holds (d : Discipline K) (s : Interpreter K) : Prop where
  entries : d.AllEntries s.resources
  states : ∀ g ∈ s.stack.states, d.state g
  elements : ∀ e ∈ s.elements.toList, d.element e

namespace Holds
variable {d : Discipline K} {s t : Interpreter K}

theorem current (h : d.Holds s) : d.state s.state := h.states _ List.mem_cons_self

theorem congr (h : d.Holds s) (hresources : t.resources = s.resources) (hstack : t.stack = s.stack)
    (helements : t.elements = s.elements) : d.Holds t where
  entries := by rw [hresources]; exact h.entries
  states := by rw [hstack]; exact h.states
  elements := by rw [helements]; exact h.elements

theorem modifyState {f : GraphicsState K → GraphicsState K} (h : d.Holds s)
    (hf : d.state s.state → d.state (f s.state)) : d.Holds (s.modifyState f) where
  entries := h.entries
  states := by
    intro g hg
    rcases List.mem_cons.1 hg with rfl | hg
    · exact hf h.current
    · exact h.states g (List.mem_cons_of_mem _ hg)
  elements := h.elements

theorem push (h : d.Holds s) : d.Holds { s with stack := s.stack.push } where
  entries := h.entries
  states := by
    intro g hg
    rcases List.mem_cons.1 hg with rfl | hg
    · exact h.current
    · exact h.states g hg
  elements := h.elements

theorem pop (h : d.Holds s) : d.Holds { s with stack := s.stack.pop } where
  entries := h.entries
  states g hg := h.states g (s.stack.states_pop_suffix.subset hg)
  elements := h.elements

theorem popTo (h : d.Holds s) {depth : Nat} (hdepth : 0 < depth) :
    d.Holds { s with stack := s.stack.popTo depth } where
  entries := h.entries
  states := by
    intro g hg
    change g ∈ (s.stack.popTo depth).states at hg
    rw [StateStack.states_popTo depth hdepth] at hg
    exact h.states g (List.mem_of_mem_drop hg)
  elements := h.elements

end Holds

variable [Scalar K]

structure Kept (options : Options K) (d : Discipline K) : Prop where
  initial (ctm : Transform K) (r : Rect K) :
    d.state { GraphicsState.initial with ctm := ctm, clipBBox := r }
  update {g h : GraphicsState K} (hsame : g.SameCoverage h) (hg : d.state g) : d.state h
  clip (segments : List (Segment K)) (rule : FillRule) {g : GraphicsState K} (hg : d.state g) :
    d.state (Interpreter.clipState options segments rule g)
  bound (ctm : Transform K) (r : Rect K) {g : GraphicsState K} (hg : d.state g) :
    d.state { g with ctm := ctm, clipBBox := g.clipBBox.intersect r }
  extGState {e : ExtGState K} {g : GraphicsState K} (he : d.entry e) (hg : d.state g) :
    d.state (g.applyExtGState e)
  unmask {g : GraphicsState K} (hg : d.state g) : d.state g.clearSoftMask
  mask {group : SoftMaskGroup K} {ctm : Transform K} {elements : List (Element K)}
    {value : MaskValue K} (hvalue : group.valueOf ctm options elements = .ok value)
    {g : GraphicsState K} (hg : d.state g) : d.state (g.applyMaskValue value)
  paint {g : GraphicsState K} {e : Element K} (hpainted : Painted options g e) (hg : d.state g) :
    d.element (Interpreter.drawn e)

end Discipline

namespace Interpreter
variable [Scalar K]

/-- The interpreters that an interpretation begins with: that of a page, or of a soft mask group. -/
inductive Starts (options : Options K) (resources : Resources K) : Interpreter K → Prop
  | page : Starts options resources (ofPage resources options)
  | group (depth : Nat) : Starts options resources (ofGroup resources depth)

/-- Executing the tokens from the first state comes through the second one: after some of the
tokens, or in the content of a form or of a soft mask group. -/
inductive ComesTo (options : Options K) :
    List (Token K) → Interpreter K → Interpreter K → Prop
  | start (ts : List (Token K)) (s : Interpreter K) : ComesTo options ts s s
  | after (t : Token K) (ts : List (Token K)) (s : Interpreter K) :
      ComesTo options (t :: ts) s (s.step (execute options) options t).state
  | next {t : Token K} {ts : List (Token K)} {s u : Interpreter K}
      (hok : (s.step (execute options) options t).fault = none)
      (h : ComesTo options ts (s.step (execute options) options t).state u) :
      ComesTo options (t :: ts) s u
  | form {name : String} {form : FormXObject K} {ts : List (Token K)} {s u : Interpreter K}
      (hdraws : DrawsForm options s name form)
      (h : ComesTo options (tokenize form.content) (s.cleared.enterForm name form) u) :
      ComesTo options (.operator "Do" :: ts) s u
  | group {g : SoftMaskGroup K} {ts : List (Token K)} {s u : Interpreter K}
      (hsets : SetsMask options s g)
      (h : ComesTo options (tokenize g.content) (ofGroup g.resources (s.maskDepth + 1)) u) :
      ComesTo options (.operator "gs" :: ts) s u

theorem comesTo_execute (options : Options K) (ts : List (Token K)) (s : Interpreter K) :
    ComesTo options ts s (execute options ts s).state := by
  induction ts generalizing s with
  | nil =>
    rw [execute_nil]
    exact .start [] s
  | cons t ts ih =>
    rw [execute_cons]
    dsimp only
    cases hfault : (s.step (execute options) options t).fault with
    | some fault => exact .after t ts s
    | none => exact .next hfault (ih _)

theorem drawXObject_state (run : Run K) (options : Options K) (name : String)
    (s : Interpreter K) :
    (s.drawXObject run options name).state = s ∨
      (s.drawXObject run options name).state = s.emit (.image ⟨withoutSlashes name, s.state⟩) ∨
      ∃ form, s.resources.xObject? name = some (.form form) ∧
        (s.drawXObject run options name).state =
          s.leaveForm (run (tokenize form.content) (s.enterForm name form)).state := by
  unfold drawXObject
  split
  · exact .inl rfl
  · exact .inr (.inl rfl)
  · unfold drawForm
    split
    · exact .inl rfl
    · exact .inr (.inr ⟨_, ‹_›, rfl⟩)

end Interpreter

namespace Discipline.Kept
open Interpreter
variable [Scalar K] {options : Options K} {d : Discipline K} {s t : Interpreter K}

theorem emit (hd : d.Kept options) {e : Element K} (hpainted : Painted options s.state e)
    (h : d.Holds s) : d.Holds (s.emit e) where
  entries := h.entries
  states := h.states
  elements := forall_mem_emit h.elements (hd.paint hpainted h.current)

theorem effect (hd : d.Kept options) (heffect : Effect options s t) (h : d.Holds s) :
    d.Holds t := by
  induction heffect with
  | refl => exact h
  | trans _ _ ih ih' => exact ih' (ih h)
  | state f hf s => exact h.modifyState (hd.update (hf s.state))
  | clip segments rule s => exact h.modifyState (hd.clip segments rule)
  | path | text => exact h.congr rfl rfl rfl
  | paint e s hpainted _ => exact hd.emit hpainted h
  | extGState e hentry =>
    have he : d.entry e := h.entries _ _ e (.refl _) hentry
    exact h.modifyState (hd.extGState he)
  | unmask s => exact h.modifyState hd.unmask
  | mask hvalue s => exact h.modifyState (hd.mask hvalue)

theorem enterForm (hd : d.Kept options) (name : String) {form : FormXObject K}
    (hform : s.resources.xObject? name = some (.form form)) (h : d.Holds s) :
    d.Holds (s.enterForm name form) := by
  have hentries : d.AllEntries (form.resources.getD s.resources) := by
    intro t name' e ht
    exact h.entries t name' e ((Resources.nests_inside hform).trans ht)
  let ctm := form.matrix.compose s.state.ctm
  let inside := fun g : GraphicsState K =>
    { g with ctm, clipBBox := g.clipBBox.intersect (ctm.applyRect form.bbox) }
  have hpush : d.Holds { s with stack := s.stack.push } := h.push
  have hstack := hpush.modifyState (f := inside) (hd.bound ctm _)
  exact ⟨hentries, hstack.states, h.elements⟩

theorem leaveForm (hd : d.Kept options) {inside : Interpreter K} (hinside : d.Holds inside)
    (h : d.Holds s) : d.Holds (s.leaveForm inside) := by
  have hend : d.Holds inside.endOpenText := hd.effect (.endOpenText inside) hinside
  have hstack := hend.popTo (Nat.succ_pos s.stack.saved.length)
  exact ⟨h.entries, hstack.states, hend.elements⟩

theorem drawXObject (hd : d.Kept options) {run : Run K}
    (hrun : ∀ ts u, d.Holds u → d.Holds (run ts u).state) (name : String) (h : d.Holds s) :
    d.Holds (s.drawXObject run options name).state := by
  rcases drawXObject_state run options name s with hs | hs | ⟨form, hform, hs⟩
  · rw [hs]
    exact h
  · rw [hs]
    exact hd.emit (.image _ rfl) h
  · rw [hs]
    exact hd.leaveForm (hrun _ _ (hd.enterForm name hform h)) h

theorem dispatch (hd : d.Kept options) {run : Run K}
    (hrun : ∀ ts u, d.Holds u → d.Holds (run ts u).state) (op : Operator)
    (args : Operand.Stack K) (h : d.Holds s) : d.Holds (s.dispatch run options op args).state := by
  by_cases hsave : op = .save
  · subst hsave
    exact h.push
  by_cases hrestore : op = .restore
  · subst hrestore
    exact h.pop
  have happly : d.Holds (s.apply options op args) :=
    hd.effect (apply_effect options op args s hsave hrestore) h
  cases op with
  | extGState =>
    change d.Holds ((Operand.popName args).1.elim (Outcome.ok s) _).state
    cases (Operand.popName args).1 with
    | none => exact h
    | some name => exact hd.effect (setExtGState_affected run options name s).effect h
  | paintXObject =>
    change d.Holds ((Operand.popName args).1.elim (Outcome.ok s) _).state
    cases (Operand.popName args).1 with
    | none => exact h
    | some name => exact hd.drawXObject hrun name h
  | _ => exact happly

theorem step (hd : d.Kept options) {run : Run K}
    (hrun : ∀ ts u, d.Holds u → d.Holds (run ts u).state) (t : Token K) (h : d.Holds s) :
    d.Holds (s.step run options t).state := by
  cases ht : t.isOperator with
  | false =>
    rw [step_operand run options ht]
    change d.Holds (s.read t)
    rw [read_frame]
    exact h.congr rfl rfl rfl
  | true =>
    cases t with
    | operator name =>
      have hcleared : d.Holds s.cleared := h.congr rfl rfl rfl
      cases hop : Operator.ofName? name with
      | none =>
        rw [step_operator_none run options hop]
        exact hcleared
      | some op =>
        rw [step_operator_some run options hop]
        have hdispatch := hd.dispatch hrun op s.operands hcleared
        dsimp only
        split
        · exact hdispatch
        · exact hdispatch.congr rfl rfl rfl
    | _ => exact absurd ht (by simp [Token.isOperator])

theorem executeWithin (hd : d.Kept options) (levels : Nat) (ts : List (Token K))
    (s : Interpreter K) (h : d.Holds s) :
    d.Holds (Interpreter.executeWithin options levels ts s).state := by
  -- What a step preserves, every run of steps preserves.
  have hsteps : ∀ run : Run K, (∀ ts u, d.Holds u → d.Holds (run ts u).state) →
      ∀ ts s, d.Holds s → d.Holds (executeWith run options ts s).state := by
    intro run hrun ts s
    exact executeWith_induction (R := fun s u => d.Holds s → d.Holds u) (fun _ => id)
      (fun _ _ _ h h' => h' ∘ h) (fun t s => hd.step hrun t) ts s
  induction levels generalizing ts s with
  | zero => exact hsteps _ (fun _ _ => id) ts s h
  | succ levels ih => exact hsteps _ ih ts s h

theorem execute (hd : d.Kept options) (ts : List (Token K)) (s : Interpreter K) (h : d.Holds s) :
    d.Holds (Interpreter.execute options ts s).state :=
  hd.executeWithin _ ts s h

theorem of_starts (hd : d.Kept options) {resources : Resources K}
    (hentries : d.AllEntries resources) (h : Starts options resources s) : d.Holds s := by
  cases h with
  | page =>
    have hstate := hd.initial options.initialCtm (options.pageBBox.getD .unbounded)
    exact ⟨hentries, List.forall_mem_singleton.2 hstate, by simp [ofPage, ofBaseState]⟩
  | group depth =>
    have hstate := hd.initial .identity .unbounded
    exact ⟨hentries, List.forall_mem_singleton.2 hstate, by simp [ofGroup, ofBaseState]⟩

theorem comesTo (hd : d.Kept options) {ts : List (Token K)} {u : Interpreter K}
    (hcomes : ComesTo options ts s u) (h : d.Holds s) : d.Holds u := by
  induction hcomes with
  | start => exact h
  | after t _ _ => exact hd.step hd.execute t h
  | next _ _ ih => exact ih (hd.step hd.execute _ h)
  | form hdraws _ ih => exact ih (hd.enterForm _ hdraws.entry (h.congr rfl rfl rfl))
  | @group g ts s u hsets _ ih =>
    obtain ⟨name, e, -, hentry, hgroup⟩ := hsets.entry
    have hentries : d.AllEntries g.resources := by
      intro t name' e' ht
      exact h.entries t name' e' ((Resources.Nests.group (.refl _) hentry hgroup).trans ht)
    exact ih (hd.of_starts hentries (.group _))

theorem finish (hd : d.Kept options) (h : d.Holds s) : ∀ e ∈ s.finish, d.element e :=
  (hd.effect (.endOpenText s) h).elements

end Discipline.Kept
end ContentStream
