import Mathlib
import ContentStream.Proofs.Footprints
import ContentStream.Proofs.OperandScope
import ContentStream.Proofs.Transforms
import ContentStream.Proofs.Visits

set_option autoImplicit false

/-!
# The place of a page

Clips, shadings, forms, soft masks and pattern fills ask where the page lies. Content without them
draws the same elements under any initial transform, at the place where that transform puts them.
-/
namespace ContentStream
variable {K : Type}

section Relations
variable [Scalar K] (C : Transform K)

def GraphicsState.placedBy (g : GraphicsState K) : GraphicsState K :=
  { g with ctm := g.ctm.compose C }

def StateStack.placedBy (s : StateStack K) : StateStack K :=
  ⟨s.saved.map (·.placedBy C), s.current.placedBy C⟩

/-- The second run is the first one where `C` puts it. The size that it has there is left open. -/
def TextRun.IsPlaced (r r' : TextRun K) : Prop :=
  r' = { r with
    start := C.apply r.start
    finish := C.apply r.finish
    outline := r.outline.map C.apply
    effectiveFontSize := r'.effectiveFontSize }

/-- The second element is the first one where `C` puts it. There is no such element for pixels. -/
inductive Element.IsPlaced : Element K → Element K → Prop
  | path (e : PathElement K) : IsPlaced (.path e) (.path { e with state := e.state.placedBy C })
  | text {runs runs' : List (TextRun K)} (hruns : List.Forall₂ (TextRun.IsPlaced C) runs runs')
      (g : GraphicsState K) : IsPlaced (.text ⟨runs, g⟩) (.text ⟨runs', g.placedBy C⟩)
  | image (e : ImageElement K) : IsPlaced (.image e) (.image { e with state := e.state.placedBy C })

inductive TextObject.IsPlaced (t : TextObject K) : TextObject K → Prop
  | intro {runs : Array (TextRun K)}
      (hruns : List.Forall₂ (TextRun.IsPlaced C) t.runs.toList runs.toList) :
      IsPlaced t { t with runs := runs }

def StateStack.Unmasked (s : StateStack K) : Prop := ∀ g ∈ s.states, g.softMask = none

def Options.placedAt (m : Transform K) (options : Options K) : Options K :=
  { options with initialCtm := m }

namespace Interpreter

def placedBy (text : TextObject K) (elements : Array (Element K)) (s : Interpreter K) :
    Interpreter K :=
  { s with
    stack := s.stack.placedBy C
    baseCtm := s.baseCtm.compose C
    text := text
    elements := elements }

inductive IsPlaced (s : Interpreter K) : Interpreter K → Prop
  | intro {text : TextObject K} {elements : Array (Element K)} (hmask : s.stack.Unmasked)
      (htext : s.text.IsPlaced C text)
      (helements : List.Forall₂ (Element.IsPlaced C) s.elements.toList elements.toList) :
      IsPlaced s (s.placedBy C text elements)

end Interpreter

structure GraphicsState.Unplaced (f : GraphicsState K → GraphicsState K) : Prop where
  placed (g : GraphicsState K) : f (g.placedBy C) = (f g).placedBy C
  unmasked (g : GraphicsState K) (h : g.softMask = none) : (f g).softMask = none

end Relations

namespace StateStack
variable {s : StateStack K}

theorem Unmasked.push (h : s.Unmasked) : s.push.Unmasked :=
  List.forall_mem_cons.2 ⟨h _ List.mem_cons_self, h⟩

theorem Unmasked.pop (h : s.Unmasked) : s.pop.Unmasked :=
  fun g hg => h g (s.states_pop_suffix.subset hg)

theorem Unmasked.modify (h : s.Unmasked) {f : GraphicsState K → GraphicsState K}
    (hf : ∀ g, g.softMask = none → (f g).softMask = none) : (s.modify f).Unmasked :=
  List.forall_mem_cons.2
    ⟨hf _ (h _ List.mem_cons_self), fun g hg => h g (List.mem_cons_of_mem _ hg)⟩

theorem placedBy_pop [Scalar K] (C : Transform K) (s : StateStack K) :
    (s.placedBy C).pop = s.pop.placedBy C := by
  obtain ⟨saved, current⟩ := s
  cases saved <;> rfl

end StateStack

namespace TextObject
variable [ExactField K] {C : Transform K} {t t' : TextObject K}

theorem IsPlaced.update (h : t.IsPlaced C t') (f : TextObject K → TextObject K)
    (hruns : (f t).runs = t.runs) (hf : ∀ runs, f { t with runs := runs } =
      { f t with runs := runs }) : (f t).IsPlaced C (f t') := by
  obtain @⟨runs, hplaced⟩ := h
  rw [← hruns] at hplaced
  rw [hf runs]
  exact .intro hplaced

theorem IsPlaced.restart (h : t.IsPlaced C t') (f : TextObject K → TextObject K)
    (hruns : (f t).runs = #[]) (hf : ∀ runs, f { t with runs := runs } = f t) :
    (f t).IsPlaced C (f t') := by
  obtain @⟨runs, -⟩ := h
  rw [hf runs]
  have hnone : List.Forall₂ (TextRun.IsPlaced C) (f t).runs.toList (f t).runs.toList := by
    rw [hruns]
    exact .nil
  exact .intro hnone

theorem IsPlaced.runs (h : t.IsPlaced C t') :
    List.Forall₂ (TextRun.IsPlaced C) t.runs.toList t'.runs.toList := by
  cases h
  assumption

theorem IsPlaced.isOpen (h : t.IsPlaced C t') : t'.isOpen = t.isOpen := by
  cases h
  rfl

theorem IsPlaced.isEmpty_runs (h : t.IsPlaced C t') : t'.runs.isEmpty = t.runs.isEmpty := by
  have hlength := h.runs.length_eq
  simp only [Array.length_toList] at hlength
  simp only [Array.isEmpty, hlength]

theorem runOf_isPlaced (t : TextObject K) (runs : Array (TextRun K)) (g : GraphicsState K)
    (bytes : List UInt8) :
    (t.runOf g bytes).IsPlaced C ({ t with runs := runs }.runOf (g.placedBy C) bytes) := by
  simp only [TextRun.IsPlaced, runOf, GraphicsState.placedBy, Transform.apply_compose, List.map_cons,
    List.map_nil]
  rfl

theorem IsPlaced.showString (h : t.IsPlaced C t') (g : GraphicsState K) (bytes : List UInt8) :
    (t.showString g bytes).IsPlaced C (t'.showString (g.placedBy C) bytes) := by
  obtain @⟨runs, hruns⟩ := h
  have hpushed : List.Forall₂ (TextRun.IsPlaced C) (t.showString g bytes).runs.toList
      (runs.push ({ t with runs := runs }.runOf (g.placedBy C) bytes)).toList := by
    change List.Forall₂ _ (t.runs.push (t.runOf g bytes)).toList _
    rw [Array.toList_push, Array.toList_push]
    exact List.rel_append hruns (.cons (runOf_isPlaced t runs g bytes) .nil)
  exact IsPlaced.intro hpushed

theorem IsPlaced.showItem (h : t.IsPlaced C t') (g : GraphicsState K) (item : Operand K) :
    (t.showItem g item).IsPlaced C (t'.showItem (g.placedBy C) item) := by
  cases item with
  | string bytes => exact h.showString g bytes
  | number adjustment => exact h.update (fun t => t.adjust g.text adjustment) rfl fun _ => rfl
  | _ => exact h

theorem IsPlaced.showItems (h : t.IsPlaced C t') (g : GraphicsState K)
    (items : List (Operand K)) :
    (items.foldl (fun t item => t.showItem g item) t).IsPlaced C
      (items.foldl (fun t item => t.showItem (g.placedBy C) item) t') := by
  induction items generalizing t t' with
  | nil => exact h
  | cons item items ih => exact ih (h.showItem g item)

end TextObject

theorem Element.IsPlaced.softMask [Scalar K] {C : Transform K} {e e' : Element K}
    (h : e.IsPlaced C e') : e'.state.softMask = e.state.softMask := by
  cases h <;> rfl

namespace Interpreter
variable [ExactField K] {options options' : Options K} {C : Transform K} {s s' : Interpreter K}

section Parts
variable (h : s.IsPlaced C s')
include h

theorem IsPlaced.current_unmasked : s.state.softMask = none := by
  obtain ⟨hmask⟩ := h
  exact hmask _ List.mem_cons_self

theorem IsPlaced.operands : s'.operands = s.operands := by
  cases h
  rfl

theorem IsPlaced.resources : s'.resources = s.resources := by
  cases h
  rfl

theorem IsPlaced.maskDepth : s'.maskDepth = s.maskDepth := by
  cases h
  rfl

theorem IsPlaced.path : s'.path = s.path := by
  cases h
  rfl

theorem IsPlaced.state : s'.state = s.state.placedBy C := by
  cases h
  rfl

theorem IsPlaced.text : s.text.IsPlaced C s'.text := by
  obtain ⟨-, htext⟩ := h
  exact htext

theorem IsPlaced.elements :
    List.Forall₂ (Element.IsPlaced C) s.elements.toList s'.elements.toList := by
  obtain ⟨-, -, helements⟩ := h
  exact helements

theorem IsPlaced.modifyState {f : GraphicsState K → GraphicsState K}
    (hf : GraphicsState.Unplaced C f) : (s.modifyState f).IsPlaced C (s'.modifyState f) := by
  obtain @⟨text, elements, hmask, htext, helements⟩ := h
  have hplaced : (s.placedBy C text elements).modifyState f =
      (s.modifyState f).placedBy C text elements := by
    unfold modifyState placedBy StateStack.modify StateStack.placedBy
    dsimp only
    rw [hf.placed]
  rw [hplaced]
  exact .intro (hmask.modify hf.unmasked) htext helements

theorem IsPlaced.modifyText (f : TextParams K → TextParams K) :
    (s.modifyText f).IsPlaced C (s'.modifyText f) :=
  h.modifyState ⟨fun _ => rfl, fun _ h => h⟩

theorem IsPlaced.update (f : Interpreter K → Interpreter K)
    (hf : ∀ text elements, f (s.placedBy C text elements) = (f s).placedBy C text elements)
    (hstack : (f s).stack = s.stack) (htext : (f s).text = s.text)
    (helements : (f s).elements = s.elements) : (f s).IsPlaced C (f s') := by
  obtain @⟨text, elements, hmask, hplaced, hdrawn⟩ := h
  rw [hf]
  rw [← hstack] at hmask
  rw [← htext] at hplaced
  rw [← helements] at hdrawn
  exact .intro hmask hplaced hdrawn

theorem IsPlaced.withText {t t' : TextObject K} (ht : t.IsPlaced C t') :
    ({ s with text := t } : Interpreter K).IsPlaced C { s' with text := t' } := by
  obtain ⟨hmask, -, helements⟩ := h
  exact @IsPlaced.intro _ _ C { s with text := t } _ _ hmask ht helements

theorem IsPlaced.withPath (p : Array (Segment K)) :
    ({ s with path := p } : Interpreter K).IsPlaced C { s' with path := p } :=
  h.update (fun s => { s with path := p }) (fun _ _ => rfl) rfl rfl rfl

theorem IsPlaced.addSegment (x : Segment K) : (s.addSegment x).IsPlaced C (s'.addSegment x) :=
  h.update (·.addSegment x) (fun _ _ => rfl) rfl rfl rfl

theorem IsPlaced.cleared : s.cleared.IsPlaced C s'.cleared :=
  h.update Interpreter.cleared (fun _ _ => rfl) rfl rfl rfl

theorem IsPlaced.read (t : Token K) : (s.read t).IsPlaced C (s'.read t) := by
  refine h.update (·.read t) (fun text elements => ?_) ?_ ?_ ?_
  · obtain ⟨hoperands, harrays⟩ :=
      read_congr t (s := s.placedBy C text elements) (u := s) rfl rfl
    rw [read_frame t (s.placedBy C text elements), hoperands, harrays, read_frame t s]
    rfl
  all_goals rw [read_frame]

theorem IsPlaced.push : ({ s with stack := s.stack.push } : Interpreter K).IsPlaced C
    { s' with stack := s'.stack.push } := by
  obtain ⟨hmask, htext, helements⟩ := h
  exact @IsPlaced.intro _ _ C { s with stack := s.stack.push } _ _ hmask.push htext helements

theorem IsPlaced.pop : ({ s with stack := s.stack.pop } : Interpreter K).IsPlaced C
    { s' with stack := s'.stack.pop } := by
  obtain @⟨text, elements, hmask, htext, helements⟩ := h
  change IsPlaced C _ { s.placedBy C text elements with stack := (s.stack.placedBy C).pop }
  rw [StateStack.placedBy_pop]
  exact @IsPlaced.intro _ _ C { s with stack := s.stack.pop } _ _ hmask.pop htext helements

theorem IsPlaced.emit {e e' : Element K} (he : e.IsPlaced C e') (hmask : e.state.softMask = none) :
    (s.emit e).IsPlaced C (s'.emit e') := by
  rw [emit_eq, emit_eq, drawn_of_unmasked hmask, drawn_of_unmasked (he.softMask.trans hmask)]
  obtain @⟨text, elements, hstack, htext, helements⟩ := h
  have hpushed : List.Forall₂ (Element.IsPlaced C) (s.elements.push e).toList
      (elements.push e').toList := by
    rw [Array.toList_push, Array.toList_push]
    exact List.rel_append helements (.cons he .nil)
  exact @IsPlaced.intro _ _ C { s with elements := s.elements.push e } _ _ hstack htext hpushed

theorem IsPlaced.elim {α : Type} (x : Option α) {f f' : α → Interpreter K}
    (hf : ∀ v, (f v).IsPlaced C (f' v)) : (x.elim s f).IsPlaced C (x.elim s' f') := by
  cases x with
  | none => exact h
  | some v => exact hf v

end Parts

section Operators
variable (h : s.IsPlaced C s')
include h

theorem IsPlaced.drawPath (hpattern : s.state.fillsWithPattern = false)
    (segments : List (Segment K)) (paint : Paint) (rule : FillRule) :
    (s.drawPath options segments paint rule).IsPlaced C
      (s'.drawPath options' segments paint rule) := by
  have hpattern' : s'.state.fillsWithPattern = false := by
    rw [h.state]
    exact hpattern
  unfold Interpreter.drawPath
  dsimp only
  -- Only a pattern would be laid out in the base transform, and over the bounds of the clip.
  rw [hpattern, hpattern', Bool.and_false, if_neg Bool.false_ne_true, if_neg Bool.false_ne_true,
    h.state]
  exact h.emit (.path _) h.current_unmasked

theorem IsPlaced.paintPath (hpattern : s.state.fillsWithPattern = false) (paint : Paint)
    (rule : FillRule) (close : Bool) :
    (s.paintPath options paint rule close).IsPlaced C
      (s'.paintPath options' paint rule close) := by
  cases hempty : s.path.isEmpty with
  | true => rwa [paintPath_empty hempty, paintPath_empty (h.path ▸ hempty)]
  | false =>
    rw [paintPath_nonempty hempty, paintPath_nonempty (h.path ▸ hempty), h.path]
    exact (h.withPath #[]).drawPath hpattern _ paint rule

theorem IsPlaced.endText : s.endText.IsPlaced C s'.endText := by
  let close : TextObject K → TextObject K := fun t => { t with isOpen := false, runs := #[] }
  have hclosed : ({ s with text := close s.text } : Interpreter K).IsPlaced C
      { s' with text := close s'.text } :=
    h.withText (h.text.restart close rfl fun _ => rfl)
  unfold Interpreter.endText
  dsimp only
  rw [h.text.isEmpty_runs]
  cases s.text.runs.isEmpty with
  | true => exact hclosed
  | false =>
    change IsPlaced C (Interpreter.emit (.text ⟨s.text.runs.toList, s.state⟩) _)
      (Interpreter.emit (.text ⟨s'.text.runs.toList, s'.state⟩) _)
    rw [h.state]
    exact hclosed.emit (.text h.text.runs s.state) h.current_unmasked

theorem IsPlaced.endOpenText : s.endOpenText.IsPlaced C s'.endOpenText := by
  unfold Interpreter.endOpenText
  rw [h.text.isOpen]
  split
  · exact h.endText
  · exact h

theorem IsPlaced.beginText : s.beginText.IsPlaced C s'.beginText :=
  h.withText (h.text.restart .opened rfl fun _ => rfl)

theorem IsPlaced.showString (bytes : List UInt8) :
    (s.showString bytes).IsPlaced C (s'.showString bytes) := by
  unfold Interpreter.showString
  rw [h.state]
  exact h.withText (h.text.showString s.state bytes)

theorem IsPlaced.showArray (items : List (Operand K)) :
    (s.showArray items).IsPlaced C (s'.showArray items) := by
  unfold Interpreter.showArray
  rw [h.state]
  exact h.withText (h.text.showItems s.state items)

theorem IsPlaced.moveLine (offset : Point K) :
    (s.moveLine offset).IsPlaced C (s'.moveLine offset) :=
  h.withText (h.text.update (·.moveLine offset) rfl fun _ => rfl)

theorem IsPlaced.nextLine : s.nextLine.IsPlaced C s'.nextLine := by
  unfold Interpreter.nextLine
  rw [h.state]
  exact h.moveLine _

theorem IsPlaced.selectFont (name : String) (size : K) :
    (s.selectFont name size).IsPlaced C (s'.selectFont name size) := by
  let select : TextObject K → TextObject K := fun t => { t with
    font := (s.resources.resolveFont? name).getD .fallback
    fontName := name
    fontSize := size }
  have hselect : s'.selectFont name size = { s' with text := select s'.text } := by
    unfold Interpreter.selectFont
    rw [h.resources]
  rw [hselect]
  exact h.withText (h.text.update select rfl fun _ => rfl)

theorem IsPlaced.selectFillSpace (name : String) :
    (s.selectFillSpace name).IsPlaced C (s'.selectFillSpace name) := by
  unfold Interpreter.selectFillSpace
  rw [h.resources]
  exact h.modifyState ⟨fun _ => rfl, fun _ h => h⟩

theorem IsPlaced.selectStrokeSpace (name : String) :
    (s.selectStrokeSpace name).IsPlaced C (s'.selectStrokeSpace name) := by
  unfold Interpreter.selectStrokeSpace
  rw [h.resources]
  exact h.modifyState ⟨fun _ => rfl, fun _ h => h⟩

theorem IsPlaced.apply (hpattern : s.state.fillsWithPattern = false) {op : Operator}
    (hclip : op ≠ .clip) (hclip' : op ≠ .clipEvenOdd) (hshading : op ≠ .paintShading)
    (args : Operand.Stack K) :
    (s.apply options op args).IsPlaced C (s'.apply options' op args) := by
  cases op <;> unfold Interpreter.apply <;> dsimp only
  case clip | clipEvenOdd | paintShading => contradiction
  case save => exact h.push
  case restore => exact h.pop
  case stroke | closeStroke | fill | fillObsolete | fillEvenOdd | fillStroke
      | fillStrokeEvenOdd | closeFillStroke | closeFillStrokeEvenOdd | endPath =>
    exact h.paintPath hpattern _ _ _
  case beginText => exact h.beginText
  case endText => exact h.endText
  case concat =>
    split
    · -- The operand comes before the transform of the page on both sides.
      refine h.modifyState ⟨fun g => ?_, fun _ h => h⟩
      simp only [GraphicsState.placedBy, Transform.compose_assoc]
    · exact h
  case lineWidth | lineCap | lineJoin | miterLimit | renderingIntent | flatness | charSpacing
      | wordSpacing | horizontalScaling | leading | renderMode | rise | strokeGray | fillGray =>
    exact h.elim _ fun _ => h.modifyState ⟨fun _ => rfl, fun _ h => h⟩
  case strokeColorSpace => exact h.elim _ h.selectStrokeSpace
  case fillColorSpace => exact h.elim _ h.selectFillSpace
  case showText => exact h.elim _ h.showString
  case showTextArray => exact h.elim _ h.showArray
  case nextLineShowText => exact h.elim _ h.nextLine.showString
  case dash =>
    split
    · exact h.elim _ fun _ => h.modifyState ⟨fun _ => rfl, fun _ h => h⟩
    · exact h
  case font =>
    split
    · exact h.elim _ fun _ => h.selectFont _ _
    · exact h
  case nextLineShowTextSpaced =>
    split
    · split
      · exact ((h.modifyText _).modifyText _).nextLine.showString _
      · exact h
    · exact h
  case closePath => exact h.addSegment _
  case moveTo | lineTo | curveTo | curveToV | curveToY | rect =>
    split
    · exact h.addSegment _
    · exact h
  case strokeRgb | fillRgb | strokeCmyk | fillCmyk =>
    split
    · exact h.modifyState ⟨fun _ => rfl, fun _ h => h⟩
    · exact h
  case moveText =>
    split
    · exact h.moveLine _
    · exact h
  case moveTextSetLeading =>
    split
    · exact (h.modifyText _).moveLine _
    · exact h
  case textMatrix =>
    split
    · exact h.withText (h.text.update (·.setMatrix _) rfl fun _ => rfl)
    · exact h
  case nextLine => exact h.nextLine
  case strokeColor | strokeColorN | fillColor | fillColorN =>
    exact h.modifyState ⟨fun _ => rfl, fun _ h => h⟩
  case extGState | paintXObject => exact h

theorem IsPlaced.setExtGState (run run' : Run K) (m : Transform K) {name : String}
    (hmask : ∀ e g, s.resources.extGState? name = some e → e.softMask = some (.group g) →
      options.maxMaskDepth ≤ s.maskDepth) :
    ∃ u u', s.setExtGState run options name = .ok u ∧
      s'.setExtGState run' (options.placedAt m) name = .ok u' ∧ u.IsPlaced C u' := by
  unfold Interpreter.setExtGState
  rw [h.resources]
  cases hentry : s.resources.extGState? name with
  | none => exact ⟨s, s', rfl, rfl, h⟩
  | some e =>
    have happlied : (s.modifyState (.applyExtGState e)).IsPlaced C
        (s'.modifyState (.applyExtGState e)) :=
      h.modifyState ⟨fun _ => rfl, fun _ h => h⟩
    have hcleared : ((s.modifyState (.applyExtGState e)).modifyState .clearSoftMask).IsPlaced C
        ((s'.modifyState (.applyExtGState e)).modifyState .clearSoftMask) :=
      happlied.modifyState ⟨fun _ => rfl, fun _ _ => rfl⟩
    dsimp only
    cases hvalue : e.softMask with
    | none => exact ⟨_, _, rfl, rfl, happlied⟩
    | some value =>
      cases value with
      | none => exact ⟨_, _, rfl, rfl, hcleared⟩
      | group g =>
        have hdeep : options.maxMaskDepth ≤ s.maskDepth := hmask e g hentry hvalue
        have hdeep' : options.maxMaskDepth ≤ s'.maskDepth := by rwa [h.maskDepth]
        exact ⟨_, _, if_pos hdeep, if_pos hdeep', hcleared⟩

end Operators

/-- The token asks nothing of the place of the page: it neither clips nor paints a shading, draws no
form, puts no group in force as a mask, and finds no pattern to fill with. -/
structure IgnoresPlace (options : Options K) (t : Token K) (s : Interpreter K) : Prop where
  unclipped : t ≠ .operator "W" ∧ t ≠ .operator "W*"
  unshaded : t ≠ .operator "sh"
  noForm : t = .operator "Do" → ∀ name form, ¬ DrawsForm options s name form
  noMask : t = .operator "gs" → ∀ g, ¬ SetsMask options s g
  unpatterned : s.state.fillsWithPattern = false

section Runs
variable (m : Transform K)

theorem IsPlaced.drawsForm_iff (h : s.IsPlaced C s') {name : String} {form : FormXObject K} :
    DrawsForm (options.placedAt m) s' name form ↔ DrawsForm options s name form := by
  cases h
  exact ⟨fun ⟨h₁, h₂, h₃, h₄⟩ => ⟨h₁, h₂, h₃, h₄⟩, fun ⟨h₁, h₂, h₃, h₄⟩ => ⟨h₁, h₂, h₃, h₄⟩⟩

theorem IsPlaced.step_paintXObject (h : s.IsPlaced C s') (run run' : Run K)
    (hform : ∀ name form, ¬ DrawsForm options s name form) :
    ∃ u u', s.step run options (.operator "Do") = .ok u ∧
      s'.step run' (options.placedAt m) (.operator "Do") = .ok u' ∧ u.IsPlaced C u' := by
  cases hname : (Operand.popName s.operands).1 with
  | none =>
    have hname' : (Operand.popName s'.operands).1 = none := by rw [h.operands, hname]
    exact ⟨_, _, step_paintXObject_none hname, step_paintXObject_none hname', h.cleared⟩
  | some name =>
    have hname' : (Operand.popName s'.operands).1 = some name := by rw [h.operands, hname]
    cases hentry : s.resources.xObject? name with
    | none =>
      have hentry' : s'.resources.xObject? name = none := by rw [h.resources, hentry]
      exact ⟨_, _, step_unknownXObject hname hentry, step_unknownXObject hname' hentry', h.cleared⟩
    | some x =>
      have hentry' : s'.resources.xObject? name = some x := by rw [h.resources, hentry]
      cases x with
      | image i =>
        refine ⟨_, _, step_image ⟨hname, hentry⟩, step_image ⟨hname', hentry'⟩, ?_⟩
        rw [h.state]
        exact h.cleared.emit (.image _) h.current_unmasked
      | form form =>
        have hskip' : ¬ DrawsForm (options.placedAt m) s' name form :=
          fun hdraws => hform name form ((h.drawsForm_iff m).1 hdraws)
        exact ⟨_, _, step_form_skipped hname hentry (hform name form),
          step_form_skipped hname' hentry' hskip', h.cleared⟩

theorem IsPlaced.step_extGState (h : s.IsPlaced C s') (run run' : Run K)
    (hmask : ∀ g, ¬ SetsMask options s g) :
    ∃ u u', s.step run options (.operator "gs") = .ok u ∧
      s'.step run' (options.placedAt m) (.operator "gs") = .ok u' ∧ u.IsPlaced C u' := by
  rw [Interpreter.step_extGState, Interpreter.step_extGState, h.operands]
  cases hname : (Operand.popName s.operands).1 with
  | none => exact ⟨_, _, rfl, rfl, h.cleared⟩
  | some name =>
    refine h.cleared.setExtGState run run' m fun e g hentry hgroup => ?_
    by_contra hshallow
    exact hmask g ⟨⟨name, e, hname, hentry, hgroup⟩, Nat.lt_of_not_le hshallow⟩

/-- A token that asks nothing of the place of the page does the same wherever the page lies. -/
theorem IsPlaced.step (h : s.IsPlaced C s') (run run' : Run K) {t : Token K}
    (ht : IgnoresPlace options t s) :
    ∃ u u', s.step run options t = .ok u ∧
      s'.step run' (options.placedAt m) t = .ok u' ∧ u.IsPlaced C u' := by
  cases hoperator : t.isOperator with
  | false =>
    exact ⟨_, _, step_operand run _ hoperator s, step_operand run' _ hoperator s', h.read t⟩
  | true =>
    cases t with
    | operator name =>
      cases hop : Operator.ofName? name with
      | none =>
        exact ⟨_, _, step_operator_none run _ hop s, step_operator_none run' _ hop s', h.cleared⟩
      | some op =>
        by_cases hpaint : op = .paintXObject
        · subst hpaint
          obtain rfl : name = "Do" := Operator.ofName?_inj hop rfl
          exact h.step_paintXObject m run run' (ht.noForm rfl)
        by_cases hext : op = .extGState
        · subst hext
          obtain rfl : name = "gs" := Operator.ofName?_inj hop rfl
          exact h.step_extGState m run run' (ht.noMask rfl)
        have hclip : op ≠ .clip := by
          rintro rfl
          exact ht.unclipped.1 (congrArg _ (Operator.ofName?_inj hop rfl))
        have hclip' : op ≠ .clipEvenOdd := by
          rintro rfl
          exact ht.unclipped.2 (congrArg _ (Operator.ofName?_inj hop rfl))
        have hshading : op ≠ .paintShading := by
          rintro rfl
          exact ht.unshaded (congrArg _ (Operator.ofName?_inj hop rfl))
        have happlied : (s.cleared.apply options op s.operands).IsPlaced C
            (s'.cleared.apply (options.placedAt m) op s.operands) :=
          h.cleared.apply ht.unpatterned hclip hclip' hshading s.operands
        refine ⟨_, _, step_apply run _ hop hext hpaint s, step_apply run' _ hop hext hpaint s', ?_⟩
        rwa [h.operands]
    | _ => exact absurd hoperator (by simp [Token.isOperator])

theorem IsPlaced.execute {ts : List (Token K)} (h : s.IsPlaced C s')
    (hts : ∀ t u, Visits options ts s t u → IgnoresPlace options t u) :
    ∃ u u', Interpreter.execute options ts s = .ok u ∧
      Interpreter.execute (options.placedAt m) ts s' = .ok u' ∧ u.IsPlaced C u' := by
  induction ts generalizing s s' with
  | nil => exact ⟨s, s', execute_nil _ s, execute_nil _ s', h⟩
  | cons t ts ih =>
    obtain ⟨u, u', hu, hu', hplaced⟩ := h.step m (Interpreter.execute options)
      (Interpreter.execute (options.placedAt m)) (hts t s (.here t ts s))
    rw [execute_cons_ok hu, execute_cons_ok hu']
    refine ih hplaced fun t' v hvisits => hts t' v (.next ?_ ?_)
    · rw [hu]
      rfl
    · rwa [hu]

theorem ofPage_isPlaced (resources : Resources K) (options : Options K) (C : Transform K) :
    (ofPage resources (options.placedAt .identity)).IsPlaced C
      (ofPage resources (options.placedAt C)) := by
  have hpage : ofPage resources (options.placedAt C) =
      (ofPage resources (options.placedAt .identity)).placedBy C .initial #[] := by
    simp [ofPage, ofBaseState, placedBy, Options.placedAt, StateStack.placedBy, StateStack.ofState,
      GraphicsState.placedBy]
  rw [hpage]
  refine .intro ?_ ?_ .nil
  · exact List.forall_mem_singleton.2 rfl
  · exact @TextObject.IsPlaced.intro _ _ C .initial #[] .nil

end Runs

def needsNoPlace (t : Token K) (s : Interpreter K) : Bool :=
  let quiet := match t with
    | .operator name => decide (name ∉ ["W", "W*", "sh", "gs"])
    | _ => true
  quiet && !s.state.fillsWithPattern

theorem ignoresPlace_of_holds {ts : List (Token K)} {s u : Interpreter K} {t : Token K}
    (h : holdsAlong options needsNoPlace ts s = true) (hvisits : Visits options ts s t u) :
    IgnoresPlace options t u := by
  obtain ⟨hform, hcheck⟩ := hvisits.holds h
  simp only [needsNoPlace, Bool.and_eq_true, Bool.not_eq_true'] at hcheck
  refine ⟨⟨?_, ?_⟩, ?_, fun heq => absurd heq hform, ?_, hcheck.2⟩
  all_goals
    rintro rfl
    exact absurd hcheck.1 (by simp)

end Interpreter

open Interpreter
variable [ExactField K]

/-- The initial transform only places what is drawn. Content that asks nothing of the place of the
page comes to its end without a fault under every initial transform, and draws under it what it
draws under the identity: the same elements in the same order, each with the transform of its state
followed by the initial one, and with the points of its text on the page moved by that one. -/
theorem interpret_isPlaced (resources : Resources K) (options : Options K) (C : Transform K)
    (ts : List (Token K))
    (hts : ∀ t s, Visits (options.placedAt .identity) ts
      (ofPage resources (options.placedAt .identity)) t s →
        IgnoresPlace (options.placedAt .identity) t s) :
    ∃ es es', interpret resources (options.placedAt .identity) ts = .ok es ∧
      interpret resources (options.placedAt C) ts = .ok es' ∧
        List.Forall₂ (Element.IsPlaced C) es es' := by
  obtain ⟨u, u', hu, hu', hplaced⟩ := (ofPage_isPlaced resources options C).execute C hts
  refine ⟨u.finish, u'.finish, ?_, ?_, hplaced.endOpenText.elements⟩
  · rw [interpret, hu]
    rfl
  · change Interpreter.execute (options.placedAt C) ts _ = _ at hu'
    rw [interpret, hu']
    rfl

/-- A scaled path, shown strings with a rise and an adjustment, and a text object that is left open,
on a page that is turned, stretched and moved. -/
theorem interpret_isPlaced_turned :
    let C : Transform ℚ := ⟨0, 2, -1, 0, 5, 6⟩
    let ts : List (Token ℚ) := tokenize (Utf8.encode
      ("q 2 0 0 3 1 1 cm 0 0 5 5 re B BT /F 10 Tf 2 Ts 1 0 0 1 3 4 Tm (xy) Tj [(y) -100 (z)] TJ " ++
        "ET Q 1 g 1 1 m 2 2 l S BT 0 0 (w) ' "))
    let root := Interpreter.ofPage .empty (Options.standard.placedAt .identity)
    (∀ t s, Visits (Options.standard.placedAt .identity) ts root t s →
      IgnoresPlace (Options.standard.placedAt .identity) t s) ∧
    ∃ es es', interpret .empty (Options.standard.placedAt .identity) ts = .ok es ∧
      interpret .empty (Options.standard.placedAt C) ts = .ok es' ∧ es.length = 4 ∧
        List.Forall₂ (Element.IsPlaced C) es es' := by
  intro C ts root
  have hholds : holdsAlong (Options.standard.placedAt .identity) needsNoPlace ts root = true := by
    decide +kernel
  have hts : ∀ t s, Visits (Options.standard.placedAt .identity) ts root t s →
      IgnoresPlace (Options.standard.placedAt .identity) t s :=
    fun _ _ => ignoresPlace_of_holds hholds
  obtain ⟨es, es', hes, hes', hplaced⟩ := interpret_isPlaced .empty .standard C ts hts
  have hlength : (interpret .empty (Options.standard.placedAt .identity) ts).toOption.map
      List.length = some 4 := by
    decide +kernel
  rw [hes] at hlength
  exact ⟨hts, es, es', hes, hes', Option.some.inj hlength, hplaced⟩

end ContentStream
