import Mathlib
import ContentStream.Proofs.Parameters

set_option autoImplicit false

namespace ContentStream
variable {K : Type} [Scalar K]

def Discipline.ofRule (entry : ExtGState K → Prop) (rule : GraphicsState K → Prop) :
    Discipline K :=
  ⟨entry, rule, fun e => rule e.state⟩

/-- The rule holds at the beginning. It survives what an operator writes, if that is admitted, where
the tables of `root` are in force. -/
structure Respected (root : Resources K)
    (admits : Operator → Operand.Stack K → GraphicsState K → Prop) (entry : ExtGState K → Prop)
    (rule : GraphicsState K → Prop) : Prop where
  initial : rule .initial
  same {g h : GraphicsState K} (hsame : g.SameParameters h) (hg : rule g) : rule h
  clear {g : GraphicsState K} (hg : rule g) : rule g.clearFillPattern
  write {r : Resources K} {op : Operator} {args : Operand.Stack K} {g h : GraphicsState K}
    (hnests : root.Nests r) (hadmits : admits op args g) (hwrites : Writes r op args g h)
    (hg : rule g) : rule h
  extGState {e : ExtGState K} {g : GraphicsState K} (he : entry e) (hg : rule g) :
    rule (g.applyExtGState e)

def Admitted (admits : Operator → Operand.Stack K → GraphicsState K → Prop) (t : Token K)
    (s : Interpreter K) : Prop :=
  ∀ name op, t = .operator name → Operator.ofName? name = some op → admits op s.operands s.state

namespace Respected
open Interpreter
variable {options : Options K} {root : Resources K}
  {admits : Operator → Operand.Stack K → GraphicsState K → Prop} {entry : ExtGState K → Prop}
  {rule : GraphicsState K → Prop} {s t : Interpreter K}

theorem of_initial (hd : Respected root admits entry rule) (ctm : Transform K) (r : Rect K) :
    rule { GraphicsState.initial with ctm := ctm, clipBBox := r } :=
  hd.same (g := .initial) ⟨⟨rfl, rfl, rfl, rfl⟩, rfl, rfl⟩ hd.initial

theorem painted (hd : Respected root admits entry rule) {g : GraphicsState K} {e : Element K}
    (hpainted : Painted options g e) (hg : rule g) : rule e.state := by
  rcases hpainted.sameParameters with hsame | hsame
  · exact hd.same hsame hg
  · exact hd.same hsame (hd.clear hg)

theorem drawn (hd : Respected root admits entry rule) {e : Element K} (he : rule e.state) :
    rule (Interpreter.drawn e).state := by
  refine Interpreter.drawn_induction (fun e => rule e.state) he fun r hr => ?_
  obtain ⟨m, -, -, -, -, -, hstate, -⟩ := Element.rasterizeMasked?_spec hr
  change rule r.state
  rw [hstate]
  refine hd.clear (hd.same ?_ he)
  exact ⟨⟨rfl, rfl, rfl, rfl⟩, rfl, rfl⟩

def Obeys (root : Resources K) (entry : ExtGState K → Prop) (rule : GraphicsState K → Prop)
    (s : Interpreter K) : Prop :=
  root.Nests s.resources ∧ (Discipline.ofRule entry rule).Holds s

theorem paints (hd : Respected root admits entry rule) (hpaints : Paints options s t)
    (hresources : t.resources = s.resources) (hstates : ∀ g ∈ t.stack.states, rule g)
    (h : (Discipline.ofRule entry rule).Holds s) : (Discipline.ofRule entry rule).Holds t where
  entries := by rw [hresources]; exact h.entries
  states := hstates
  elements := by
    obtain ⟨es, helements, hpainted⟩ := hpaints
    intro e he
    rw [helements] at he
    rcases List.mem_append.1 he with he | he
    · exact h.elements e he
    · obtain ⟨e', he', rfl⟩ := List.mem_map.1 he
      exact hd.drawn (hd.painted (hpainted e' he') h.current)

theorem finish (hd : Respected root admits entry rule)
    (h : (Discipline.ofRule entry rule).Holds s) :
    (Discipline.ofRule entry rule).Holds s.endOpenText := by
  have hpaints : Paints .standard s s.endOpenText := by
    unfold endOpenText
    split
    · exact endText_paints s
    · exact .of_eq rfl
  refine hd.paints hpaints (endOpenText_changes s).sameContext.resources ?_ h
  rw [endOpenText_stack]
  exact h.states

theorem apply (hd : Respected root admits entry rule) {op : Operator} {args : Operand.Stack K}
    (hnests : root.Nests s.resources) (hadmits : admits op args s.state)
    (h : (Discipline.ofRule entry rule).Holds s) :
    (Discipline.ofRule entry rule).Holds (s.apply options op args) := by
  by_cases hsave : op = .save
  · subst hsave
    exact h.push
  by_cases hrestore : op = .restore
  · subst hrestore
    exact h.pop
  have hupdates := apply_updates options op args s hsave hrestore
  have hchanges := apply_changes options op args s hsave hrestore
  refine hd.paints hupdates.elements hchanges.sameContext.resources ?_ h
  refine List.forall_mem_cons.2 ⟨hd.write hnests hadmits hupdates.state h.current, ?_⟩
  rw [hchanges.saved]
  exact fun g hg => h.states g (List.mem_cons_of_mem _ hg)

theorem setExtGState (hd : Respected root admits entry rule) (run : Run K) (name : String)
    (h : (Discipline.ofRule entry rule).Holds s) :
    (Discipline.ofRule entry rule).Holds (s.setExtGState run options name).state := by
  have hframe := setExtGState_frame run options name s
  have hchanges := (setExtGState_affected run options name s).effect.changes
  refine ⟨?_, List.forall_mem_cons.2 ⟨?_, ?_⟩, ?_⟩
  · rw [hframe]
    exact h.entries
  · rcases setExtGState_parameters run name s with hsame | ⟨e, he, hsame⟩
    · exact hd.same hsame h.current
    · exact hd.same hsame (hd.extGState (h.entries _ _ e (.refl _) he) h.current)
  · rw [hchanges.saved]
    exact fun g hg => h.states g (List.mem_cons_of_mem _ hg)
  · rw [hframe]
    exact h.elements

theorem enters (hd : Respected root admits entry rule) {t : Token K} {us : List (Token K)}
    {v : Interpreter K} (henters : Enters options s t us v) (h : Obeys root entry rule s) :
    Obeys root entry rule v := by
  obtain ⟨hnests, h⟩ := h
  cases henters with
  | @form name form hdraws =>
    have hinside := Resources.nests_inside hdraws.entry
    have hpushed : (Discipline.ofRule entry rule).Holds { s.cleared with stack := s.stack.push } :=
      (h.congr rfl rfl rfl : (Discipline.ofRule entry rule).Holds s.cleared).push
    refine ⟨hnests.trans hinside, ?_, ?_, h.elements⟩
    · exact fun t name' e ht => h.entries t name' e (hinside.trans ht)
    · refine List.forall_mem_cons.2 ⟨hd.same ?_ h.current, h.states⟩
      exact ⟨⟨rfl, rfl, rfl, rfl⟩, rfl, rfl⟩
  | @group g hsets =>
    obtain ⟨name, e, -, hentry, hgroup⟩ := hsets.entry
    have hinside : s.resources.Nests g.resources := .group (.refl _) hentry hgroup
    refine ⟨hnests.trans hinside, ?_, List.forall_mem_singleton.2 hd.initial, ?_⟩
    · exact fun t name' e' ht => h.entries t name' e' (hinside.trans ht)
    · simp [ofGroup, ofBaseState]

theorem afterForm (hd : Respected root admits entry rule) {r : Outcome K}
    (hinside : (Discipline.ofRule entry rule).Holds r.state)
    (h : (Discipline.ofRule entry rule).Holds s) :
    (Discipline.ofRule entry rule).Holds (s.afterForm r).state := by
  have hend := hd.finish hinside
  have hleave : (Discipline.ofRule entry rule).Holds (s.leaveForm r.state) :=
    ⟨h.entries, (hend.popTo (Nat.succ_pos s.stack.saved.length)).states, hend.elements⟩
  unfold Interpreter.afterForm
  split
  · exact hleave
  · exact hleave.congr rfl rfl rfl

theorem preserves (hd : Respected root admits entry rule) :
    Preserves options (Admitted admits) (Obeys root entry rule) where
  enter henters h := hd.enters henters h
  step := by
    intro s t hmet hinside ⟨hnests, h⟩
    have hsame := step_sameContext options t s
    refine ⟨hsame.resources ▸ hnests, ?_⟩
    have hcleared : (Discipline.ofRule entry rule).Holds s.cleared := h.congr rfl rfl rfl
    have hperformed := performed (execute options) options t s
    generalize hr : s.step (execute options) options t = r at hperformed
    cases hperformed with
    | operand _ =>
      change (Discipline.ofRule entry rule).Holds (s.read t)
      rw [read_frame]
      exact h.congr rfl rfl rfl
    | unknown _ | idle => exact hcleared
    | apply hop _ _ => exact hd.apply hnests (hmet _ _ rfl hop) hcleared
    | extGState _ _ =>
      rw [← hr, step_extGState]
      cases (Operand.popName s.operands).1 with
      | none => exact hcleared
      | some name => exact hd.setExtGState (execute options) name hcleared
    | @image name _ _ =>
      have hpainted : Painted options s.cleared.state (.image ⟨withoutSlashes name, s.state⟩) :=
        .image _ rfl
      exact hd.paints (.emit hpainted) rfl h.states hcleared
    | form hdraws => exact hd.afterForm (hinside _ _ (.form hdraws)).2 hcleared

/-- Where all operators that a run meets are admitted, the rule holds throughout. -/
theorem comesTo (hd : Respected root admits entry rule)
    (hentries : ∀ r name e, root.Nests r → r.extGState? name = some e → entry e)
    {start u : Interpreter K} (hstart : Starts options root start) {ts : List (Token K)}
    (hmet : ∀ t v, Meets options ts start t v → Admitted admits t v)
    (h : ComesTo options ts start u) :
    (∀ g ∈ u.stack.states, rule g) ∧ (∀ e ∈ u.elements.toList, rule e.state) ∧
      ∀ e ∈ u.finish, rule e.state := by
  have hbegin : Obeys root entry rule start := by
    cases hstart with
    | page =>
      refine ⟨.refl _, hentries, ?_, by simp [ofPage, ofBaseState]⟩
      exact List.forall_mem_singleton.2 (hd.of_initial _ _)
    | group depth =>
      refine ⟨.refl _, hentries, ?_, by simp [ofGroup, ofBaseState]⟩
      exact List.forall_mem_singleton.2 hd.initial
  obtain ⟨-, hholds⟩ := hd.preserves.comesTo h hmet hbegin
  exact ⟨hholds.states, hholds.elements, (hd.finish hholds).elements⟩

theorem always (hd : Respected root (fun _ _ _ => True) entry rule)
    (hentries : ∀ r name e, root.Nests r → r.extGState? name = some e → entry e)
    {start u : Interpreter K} (hstart : Starts options root start) {ts : List (Token K)}
    (h : ComesTo options ts start u) :
    (∀ g ∈ u.stack.states, rule g) ∧ (∀ e ∈ u.elements.toList, rule e.state) ∧
      ∀ e ∈ u.finish, rule e.state :=
  hd.comesTo hentries hstart (fun _ _ _ _ _ _ _ => trivial) h

end Respected
end ContentStream
