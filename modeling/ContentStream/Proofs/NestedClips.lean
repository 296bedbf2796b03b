import Mathlib
import ContentStream.Proofs.Invariants
import ContentStream.Proofs.ScalarOrder
import ContentStream.Proofs.SoundStates

set_option autoImplicit false

/-!
# Nested clips

The bounds of the clip only shrink from a saved state to the states above it, and the lowest ones
lie within the page. Restoring states cuts such a chain at the top, whether or not the content of a
form restores more states than it has saved.
-/
namespace ContentStream
open Scalar
variable {K : Type} [Scalar K]

namespace Rect

/-- One rectangle lies within another one, coordinate by coordinate. None of them is a NaN. -/
structure IsWithin (r s : Rect K) : Prop where
  left : s.x0 ≤ r.x0
  bottom : s.y0 ≤ r.y0
  right : r.x1 ≤ s.x1
  top : r.y1 ≤ s.y1

structure HasNumbers (r : Rect K) : Prop where
  left : isNaN r.x0 = false
  bottom : isNaN r.y0 = false
  right : isNaN r.x1 = false
  top : isNaN r.y1 = false

section Ordered
variable [OrderedScalar K] {r s t : Rect K}

theorem IsWithin.hasNumbers (h : r.IsWithin s) : r.HasNumbers where
  left := (OrderedScalar.isNaN_of_le h.left).2
  bottom := (OrderedScalar.isNaN_of_le h.bottom).2
  right := (OrderedScalar.isNaN_of_le h.right).1
  top := (OrderedScalar.isNaN_of_le h.top).1

theorem IsWithin.trans (h : r.IsWithin s) (h' : s.IsWithin t) : r.IsWithin t where
  left := OrderedScalar.le_trans h'.left h.left
  bottom := OrderedScalar.le_trans h'.bottom h.bottom
  right := OrderedScalar.le_trans h.right h'.right
  top := OrderedScalar.le_trans h.top h'.top

instance : Trans (IsWithin (K := K)) IsWithin IsWithin := ⟨IsWithin.trans⟩

theorem HasNumbers.isWithin_self (h : r.HasNumbers) : r.IsWithin r where
  left := le_refl_of_number h.left
  bottom := le_refl_of_number h.bottom
  right := le_refl_of_number h.right
  top := le_refl_of_number h.top

/-- Whatever a rectangle is cut with, NaN included, leaves a part of it. -/
theorem HasNumbers.isWithin_intersect (h : r.HasNumbers) (s : Rect K) :
    (r.intersect s).IsWithin r where
  left := first_le_max h.left _
  bottom := first_le_max h.bottom _
  right := min_le_first h.right _
  top := min_le_first h.top _

theorem hasNumbers_unbounded : (unbounded : Rect K).HasNumbers where
  left := OrderedScalar.isNaN_neg_maxFinite
  bottom := OrderedScalar.isNaN_neg_maxFinite
  right := OrderedScalar.isNaN_maxFinite
  top := OrderedScalar.isNaN_maxFinite

end Ordered
end Rect

theorem Painted.clipBBox_drawn {options : Options K} {g : GraphicsState K} {e : Element K}
    (h : Painted options g e) : (Interpreter.drawn e).state.clipBBox = g.clipBBox := by
  have he : e.state.clipBBox = g.clipBBox := h.sameCoverage.clipBBox
  refine Interpreter.drawn_induction (·.state.clipBBox = g.clipBBox) he fun r hr => ?_
  obtain ⟨m, sampler, -, -, -, -, hstate, -⟩ := Element.rasterizeMasked?_spec hr
  change r.state.clipBBox = g.clipBBox
  rw [hstate]
  exact he

namespace Interpreter

/-- From the current state down to the lowest one and to `base`, each clip bounds the one before
it; `base` bounds the clip of every element. -/
structure ClipsNest (base : Rect K) (s : Interpreter K) : Prop where
  chain : (s.stack.states.map GraphicsState.clipBBox ++ [base]).IsChain Rect.IsWithin
  elements : ∀ e ∈ s.elements.toList, e.state.clipBBox.IsWithin base

variable [OrderedScalar K] {options : Options K} {base : Rect K} {s t : Interpreter K}

namespace ClipsNest

omit [OrderedScalar K] in
theorem congr (h : s.ClipsNest base) (hstack : t.stack = s.stack)
    (helements : t.elements = s.elements) : t.ClipsNest base where
  chain := by rw [hstack]; exact h.chain
  elements := by rw [helements]; exact h.elements

theorem isWithin (h : s.ClipsNest base) {g : GraphicsState K} (hg : g ∈ s.stack.states) :
    g.clipBBox.IsWithin base := by
  have hpairwise := List.isChain_iff_pairwise.1 h.chain
  exact (List.pairwise_append.1 hpairwise).2.2 _ (List.mem_map_of_mem hg) base List.mem_cons_self

theorem current (h : s.ClipsNest base) : s.state.clipBBox.IsWithin base :=
  h.isWithin List.mem_cons_self

theorem modifyState {f : GraphicsState K → GraphicsState K} (h : s.ClipsNest base)
    (hf : (f s.state).clipBBox.IsWithin s.state.clipBBox) : (s.modifyState f).ClipsNest base where
  chain := by
    obtain ⟨hhead, htail⟩ := List.isChain_cons.1 h.chain
    refine List.isChain_cons.2 ⟨?_, htail⟩
    intro r hr
    exact hf.trans (hhead r hr)
  elements := h.elements

theorem keepClip {f : GraphicsState K → GraphicsState K} (h : s.ClipsNest base)
    (hf : (f s.state).clipBBox = s.state.clipBBox) : (s.modifyState f).ClipsNest base := by
  refine h.modifyState ?_
  rw [hf]
  exact h.current.hasNumbers.isWithin_self

theorem push (h : s.ClipsNest base) : ClipsNest base { s with stack := s.stack.push } where
  chain := List.isChain_cons_cons.2 ⟨h.current.hasNumbers.isWithin_self, h.chain⟩
  elements := h.elements

omit [OrderedScalar K] in
theorem of_suffix (h : s.ClipsNest base) {stack : StateStack K}
    (hstack : stack.states <:+ s.stack.states) : ClipsNest base { s with stack := stack } where
  chain := by
    obtain ⟨above, habove⟩ := hstack
    refine h.chain.suffix ⟨above.map GraphicsState.clipBBox, ?_⟩
    rw [← habove, List.map_append, List.append_assoc]
  elements := h.elements

omit [OrderedScalar K] in
theorem emit (h : s.ClipsNest base) (e : Element K)
    (he : (drawn e).state.clipBBox.IsWithin base) : (s.emit e).ClipsNest base where
  chain := h.chain
  elements := forall_mem_emit h.elements he

theorem paint (h : s.ClipsNest base) {e : Element K} (he : Painted options s.state e) :
    (s.emit e).ClipsNest base := by
  refine h.emit e ?_
  rw [he.clipBBox_drawn]
  exact h.current

theorem clipState_isWithin (segments : List (Segment K)) (rule : FillRule) {g : GraphicsState K}
    (hg : g.clipBBox.HasNumbers) :
    (clipState options segments rule g).clipBBox.IsWithin g.clipBBox := by
  unfold clipState
  dsimp only
  split
  · exact hg.isWithin_self
  · exact hg.isWithin_intersect _

theorem effect (heffect : Effect options s t) (h : s.ClipsNest base) : t.ClipsNest base := by
  induction heffect with
  | refl => exact h
  | trans _ _ ih ih' => exact ih' (ih h)
  | state f hf s => exact h.keepClip (hf s.state).clipBBox
  | clip segments rule s =>
    exact h.modifyState (clipState_isWithin segments rule h.current.hasNumbers)
  | path | text => exact h.congr rfl rfl
  | paint e s hpainted _ => exact h.paint hpainted
  | extGState | unmask => exact h.keepClip rfl
  | @mask g ctm elements value _ s => cases value <;> exact h.keepClip rfl

theorem endOpenText (h : s.ClipsNest base) : s.endOpenText.ClipsNest base := by
  have heffect : Effect .standard s s.endOpenText := .endOpenText s
  exact effect heffect h

theorem enterForm (h : s.ClipsNest base) (name : String) (form : FormXObject K) :
    (s.enterForm name form).ClipsNest base := by
  let ctm := form.matrix.compose s.state.ctm
  let inside := fun g : GraphicsState K =>
    { g with ctm, clipBBox := g.clipBBox.intersect (ctm.applyRect form.bbox) }
  have hinside := h.push.modifyState (f := inside)
    (h.current.hasNumbers.isWithin_intersect (ctm.applyRect form.bbox))
  exact hinside.congr rfl rfl

theorem leaveForm {inside : Interpreter K} (h : inside.ClipsNest base) (s : Interpreter K) :
    (s.leaveForm inside).ClipsNest base := by
  have hend : inside.endOpenText.ClipsNest base := h.endOpenText
  -- Content that has restored its caller's states leaves a stack that is shorter already.
  have hsuffix : (inside.endOpenText.stack.popTo s.stack.depth).states <:+
      inside.endOpenText.stack.states := by
    rw [StateStack.states_popTo s.stack.depth (Nat.succ_pos _)]
    exact List.drop_suffix _ _
  exact (hend.of_suffix hsuffix).congr rfl rfl

theorem apply (h : s.ClipsNest base) (op : Operator) (args : Operand.Stack K) :
    (s.apply options op args).ClipsNest base := by
  by_cases hsave : op = .save
  · subst hsave
    exact h.push
  by_cases hrestore : op = .restore
  · subst hrestore
    exact h.of_suffix s.stack.states_pop_suffix
  exact effect (apply_effect options op args s hsave hrestore) h

/-- One token keeps the clips nested if the content of a form that it draws does. -/
theorem step {run : Run K} (hrun : ∀ ts u, u.ClipsNest base → (run ts u).state.ClipsNest base)
    (t : Token K) (h : s.ClipsNest base) : (s.step run options t).state.ClipsNest base := by
  have hcleared : s.cleared.ClipsNest base := h.congr rfl rfl
  have hperformed := performed run options t s
  generalize s.step run options t = r at hperformed
  cases hperformed with
  | operand _ =>
    change (s.read t).ClipsNest base
    rw [read_frame]
    exact h.congr rfl rfl
  | unknown _ | idle => exact hcleared
  | apply _ _ _ => exact hcleared.apply _ _
  | extGState haffected _ => exact effect haffected.effect hcleared
  | @image name i _ =>
    have hpainted : Painted options s.cleared.state (.image ⟨withoutSlashes name, s.state⟩) :=
      .image _ rfl
    exact hcleared.paint hpainted
  | @form name form _ =>
    have hinside := hrun (tokenize form.content) _ (hcleared.enterForm name form)
    have hleave := hinside.leaveForm s.cleared
    unfold afterForm
    split
    · exact hleave
    · exact hleave.congr rfl rfl

theorem executeWithin (levels : Nat) (ts : List (Token K)) (h : s.ClipsNest base) :
    (Interpreter.executeWithin options levels ts s).state.ClipsNest base := by
  have hsteps : ∀ run : Run K, (∀ ts u, u.ClipsNest base → (run ts u).state.ClipsNest base) →
      ∀ ts s, s.ClipsNest base → (executeWith run options ts s).state.ClipsNest base := by
    intro run hrun ts s
    exact executeWith_induction (R := fun s u => s.ClipsNest base → u.ClipsNest base) (fun _ => id)
      (fun _ _ _ h h' => h' ∘ h) (fun t s => step hrun t) ts s
  induction levels generalizing ts s with
  | zero => exact hsteps _ (fun _ _ => id) ts s h
  | succ levels ih => exact hsteps _ (fun ts u => ih ts) ts s h

theorem execute (ts : List (Token K)) (h : s.ClipsNest base) :
    (Interpreter.execute options ts s).state.ClipsNest base :=
  h.executeWithin _ ts

theorem ofBaseState (resources : Resources K) {g : GraphicsState K} (hg : g.clipBBox.HasNumbers)
    (depth : Nat) : (Interpreter.ofBaseState resources g depth).ClipsNest g.clipBBox where
  chain := List.isChain_pair.2 hg.isWithin_self
  elements := by simp [Interpreter.ofBaseState]

end ClipsNest

def clipBase (options : Options K) (s : Interpreter K) : Rect K :=
  if s.maskDepth = 0 then options.pageBBox.getD .unbounded else .unbounded

theorem clipsNest_comesTo {ts : List (Token K)} (hcomes : ComesTo options ts s t)
    (h : s.ClipsNest (s.clipBase options)) : t.ClipsNest (t.clipBase options) := by
  have hstep : ∀ (t : Token K) (s : Interpreter K), s.ClipsNest (s.clipBase options) →
      (s.step (execute options) options t).state.ClipsNest
        ((s.step (execute options) options t).state.clipBase options) := by
    intro t s hs
    have hsame := step_sameContext options t s
    unfold clipBase
    rw [hsame.maskDepth]
    exact ClipsNest.step (fun ts u hu => hu.execute ts) t hs
  induction hcomes with
  | start => exact h
  | after t _ s => exact hstep t s h
  | next _ _ ih => exact ih (hstep _ _ h)
  | @form name form _ s _ _ _ ih =>
    have hcleared : s.cleared.ClipsNest (s.cleared.clipBase options) := h.congr rfl rfl
    exact ih (hcleared.enterForm name form)
  | group _ _ ih =>
    exact ih (.ofBaseState _ (g := .initial) Rect.hasNumbers_unbounded _)

/-- Wherever the run of a page comes through, in forms with unbalanced content and in soft mask
groups too, the clip of each state on the stack bounds that of the state above it. Those of the page
itself, and those of its elements, lie within the page. -/
theorem comesTo_clips_nested (options : Options K) {resources : Resources K}
    (hpage : ∀ r, options.pageBBox = some r → r.HasNumbers) {ts : List (Token K)}
    {u : Interpreter K} (h : ComesTo options ts (.ofPage resources options) u) :
    (u.stack.states.map GraphicsState.clipBBox ++ [u.clipBase options]).IsChain Rect.IsWithin ∧
      (∀ e ∈ u.elements.toList, e.state.clipBBox.IsWithin (u.clipBase options)) ∧
      ∀ e ∈ u.finish, e.state.clipBBox.IsWithin (u.clipBase options) := by
  have hnumbers : (options.pageBBox.getD .unbounded).HasNumbers := by
    cases hbox : options.pageBBox with
    | none => exact Rect.hasNumbers_unbounded
    | some r => exact hpage r hbox
  let bottom : GraphicsState K := { GraphicsState.initial with
    ctm := options.initialCtm
    clipBBox := options.pageBBox.getD .unbounded }
  have hstart : (ofPage resources options).ClipsNest (options.pageBBox.getD .unbounded) :=
    ClipsNest.ofBaseState resources (g := bottom) hnumbers 0
  have hnest : u.ClipsNest (u.clipBase options) := clipsNest_comesTo h hstart
  exact ⟨hnest.chain, hnest.elements, hnest.endOpenText.elements⟩

/-- The form restores the two states that its caller has saved and clips the lowest one. -/
theorem comesTo_clips_nested_surplusRestore :
    let options : Options Float := { Options.standard with pageBBox := some ⟨0, 0, 10, 10⟩ }
    let form : FormXObject Float :=
      ⟨⟨0, 0, 8, 8⟩, .identity, none, Utf8.encode "Q Q Q 1 1 4 20 re W q 2 2 9 9 re f"⟩
    let resources : Resources Float := { Resources.empty with xObjects := [("F", .form form)] }
    let ts := tokenize (Utf8.encode "q 3 3 5 5 re W q /F Do foo 0 0 1 1 re f")
    let u := (execute options ts (.ofPage resources options)).state
    (∀ r, options.pageBBox = some r → r.HasNumbers) ∧
      u.stack.depth = 2 ∧ (u.state.clipBBox == ⟨1, 1, 5, 10⟩) = true ∧
      (u.stack.states.map GraphicsState.clipBBox ++ [u.clipBase options]).IsChain Rect.IsWithin ∧
      u.elements.size = 2 ∧
      ∀ e ∈ u.elements.toList, e.state.clipBBox.IsWithin (u.clipBase options) := by
  intro options form resources ts u
  have hpage : ∀ r, options.pageBBox = some r → r.HasNumbers := by
    rintro r ⟨⟩
    exact ⟨by decide +kernel, by decide +kernel, by decide +kernel, by decide +kernel⟩
  obtain ⟨hchain, helements, -⟩ := comesTo_clips_nested options hpage
    (comesTo_execute options ts (.ofPage resources options))
  exact ⟨hpage, by decide +kernel, by decide +kernel, hchain, by decide +kernel, helements⟩

end Interpreter
end ContentStream
