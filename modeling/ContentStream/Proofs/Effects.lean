import Mathlib
import ContentStream.Interpreter.Step

set_option autoImplicit false

/-!
# Effects of operators

Save, restore and `Do` aside, every operator is a chain of a few elementary effects: it updates the
current state, the pending path or the text object, it paints in the current state, or it takes
parameters or the value of a soft mask into the state. A property of all of these operators is
proved of the elementary effects alone.
-/
namespace ContentStream
variable {K : Type}

structure GraphicsState.SameCoverage (g h : GraphicsState K) : Prop where
  clipBBox : h.clipBBox = g.clipBBox
  clipMask : h.clipMask = g.clipMask
  softMask : h.softMask = g.softMask
  softMaskAlpha : h.softMaskAlpha = g.softMaskAlpha
  fillAlpha : h.fillAlpha = g.fillAlpha
  strokeAlpha : h.strokeAlpha = g.strokeAlpha

variable [Scalar K]

theorem GraphicsState.SameCoverage.clearFillPattern (g : GraphicsState K) :
    g.SameCoverage g.clearFillPattern :=
  ⟨rfl, rfl, rfl, rfl, rfl, rfl⟩

/-- What an operator paints in a state, before a soft mask makes pixels of it. -/
inductive Painted (options : Options K) (g : GraphicsState K) : Element K → Prop
  | path (e : PathElement K) (h : e.state = g ∨ e.state = g.clearFillPattern) :
      Painted options g (.path e)
  | text (e : TextElement K) (h : e.state = g) : Painted options g (.text e)
  | image (e : ImageElement K) (h : e.state = g) : Painted options g (.image e)
  | shading (d : Shading K) (toPage : Transform K) (region : Rect K)
      (path : Option (List (Subpath K) × FillRule)) (r : RasterImage K)
      (h : d.rasterize? toPage region path options.shadingBudget g = some r) :
      Painted options g (.raster r)
  | pattern (d : Shading K) (toPage : Transform K) (region : Rect K)
      (path : Option (List (Subpath K) × FillRule)) (r : RasterImage K)
      (h : d.rasterize? toPage region path options.shadingBudget g = some r) :
      Painted options g (.raster { r with state := r.state.clearFillPattern })

namespace Interpreter

def drawn (e : Element K) : Element K :=
  if isMasked e then (e.rasterizeMasked?.map Element.raster).getD e else e

theorem emit_eq (e : Element K) (s : Interpreter K) :
    s.emit e = { s with elements := s.elements.push (drawn e) } := rfl

/-- What holds of an element and of the pixels that a mask makes of it holds of what is drawn. -/
theorem drawn_induction (P : Element K → Prop) {e : Element K} (he : P e)
    (hraster : ∀ r, e.rasterizeMasked? = some r → P (.raster r)) : P (drawn e) := by
  unfold drawn
  split
  · cases hr : e.rasterizeMasked? with
    | none => exact he
    | some r => exact hraster r hr
  · exact he

theorem forall_mem_emit {P : Element K → Prop} {e : Element K} {s : Interpreter K}
    (h : ∀ e' ∈ s.elements.toList, P e') (he : P (drawn e)) :
    ∀ e' ∈ (s.emit e).elements.toList, P e' := by
  intro e' he'
  rw [emit_eq, Array.toList_push] at he'
  rcases List.mem_append.1 he' with he' | he'
  · exact h e' he'
  · obtain rfl := List.mem_singleton.1 he'
    exact he

theorem drawn_of_unmasked {e : Element K} (h : e.state.softMask = none) : drawn e = e := by
  have hunmasked : isMasked e = false := by
    cases e with
    | path e =>
      change (e.state.softMask.isSome && e.paint != .none) = false
      rw [show e.state.softMask = none from h]
      rfl
    | text e => exact congrArg Option.isSome h
    | image | raster => rfl
  rw [drawn, hunmasked, if_neg Bool.false_ne_true]

theorem painted_pattern {options : Options K} {segments : List (Segment K)} {rule : FillRule}
    {s : Interpreter K} {raster : RasterImage K}
    (h : s.rasterizePattern? options segments rule s.state = some raster) :
    Painted options s.state (.raster raster) := by
  unfold rasterizePattern? at h
  split at h
  · obtain ⟨r, hr, rfl⟩ := Option.map_eq_some_iff.1 h
    exact .pattern _ _ _ _ r hr
  · exact absurd h (by simp)

inductive Effect (options : Options K) : Interpreter K → Interpreter K → Prop
  | refl (s : Interpreter K) : Effect options s s
  | trans {s t u : Interpreter K} (h : Effect options s t) (h' : Effect options t u) :
      Effect options s u
  | state (f : GraphicsState K → GraphicsState K)
      (h : ∀ g : GraphicsState K, g.SameCoverage (f g)) (s : Interpreter K) :
      Effect options s (s.modifyState f)
  | clip (segments : List (Segment K)) (rule : FillRule) (s : Interpreter K) :
      Effect options s (s.modifyState (clipState options segments rule))
  | path (p : Array (Segment K)) (s : Interpreter K) : Effect options s { s with path := p }
  | text (t : TextObject K) (s : Interpreter K) : Effect options s { s with text := t }
  | paint (e : Element K) (s : Interpreter K) (h : Painted options s.state e)
      (himage : ∀ i, e ≠ .image i) : Effect options s (s.emit e)
  | extGState (e : ExtGState K) {name : String} {s : Interpreter K}
      (h : s.resources.extGState? name = some e) :
      Effect options s (s.modifyState (.applyExtGState e))
  | unmask (s : Interpreter K) : Effect options s (s.modifyState .clearSoftMask)
  | mask {g : SoftMaskGroup K} {ctm : Transform K} {elements : List (Element K)}
      {value : MaskValue K} (h : g.valueOf ctm options elements = .ok value) (s : Interpreter K) :
      Effect options s (s.modifyState (.applyMaskValue value))

namespace Effect
variable {options : Options K} {s : Interpreter K}

theorem elim {α : Type} {f : α → Interpreter K} (x : Option α)
    (h : ∀ v, Effect options s (f v)) : Effect options s (x.elim s f) := by
  cases x with
  | none => exact refl s
  | some v => exact h v

theorem drawPath (segments : List (Segment K)) (paint : Paint) (rule : FillRule)
    (s : Interpreter K) : Effect options s (s.drawPath options segments paint rule) := by
  unfold Interpreter.drawPath
  dsimp only
  split
  · rename_i raster hraster
    have hpainted := painted_pattern (Option.ite_none_right_eq_some.1 hraster).2
    split
    · exact .trans (.paint _ s hpainted (by simp))
        (.paint _ (s.emit _) (.path _ (.inr rfl)) (by simp))
    · exact .paint _ s hpainted (by simp)
  · exact .paint _ s (.path _ (.inl rfl)) (by simp)

theorem paintPath (paint : Paint) (rule : FillRule) (close : Bool) (s : Interpreter K) :
    Effect options s (s.paintPath options paint rule close) := by
  unfold Interpreter.paintPath
  split
  · exact .refl s
  · exact .trans (.path #[] s) (drawPath ..)

theorem clipPath (rule : FillRule) (s : Interpreter K) :
    Effect options s (s.clipPath options rule) := by
  unfold Interpreter.clipPath
  split
  · exact .refl s
  · exact .trans (.path #[] s) (.clip _ _ _)

theorem paintShading (name : String) (s : Interpreter K) :
    Effect options s (s.paintShading options name) := by
  unfold Interpreter.paintShading
  split
  · exact .refl s
  · dsimp only
    split
    · rename_i hraster
      exact .paint _ s (.shading _ _ _ _ _ hraster) (by simp)
    · exact .refl s

theorem endText (s : Interpreter K) : Effect options s s.endText := by
  unfold Interpreter.endText
  dsimp only
  split
  · exact .text _ s
  · exact .trans (.text _ s) (.paint _ _ (.text _ rfl) (by simp))

theorem endOpenText (s : Interpreter K) : Effect options s s.endOpenText := by
  unfold Interpreter.endOpenText
  split
  · exact endText s
  · exact .refl s

theorem nextLineShowString (bytes : List UInt8) (s : Interpreter K) :
    Effect options s (s.nextLine.showString bytes) :=
  .trans (.text _ s) (.text _ _)

end Effect

theorem apply_effect (options : Options K) (op : Operator) (args : Operand.Stack K)
    (s : Interpreter K) (hsave : op ≠ .save) (hrestore : op ≠ .restore) :
    Effect options s (s.apply options op args) := by
  -- Operators of one kind differ only in what they read from the operands.
  cases op <;> unfold apply <;> dsimp only
  case save => exact absurd rfl hsave
  case restore => exact absurd rfl hrestore
  case beginText | nextLine => exact .text _ s
  case endText => exact .endText s
  case extGState | paintXObject => exact .refl s
  case clip | clipEvenOdd => exact .clipPath _ s
  case closePath => exact .path _ s
  case strokeColor | strokeColorN | fillColor | fillColorN =>
    refine .state _ ?_ s
    exact fun _ => ⟨rfl, rfl, rfl, rfl, rfl, rfl⟩
  case stroke | closeStroke | fill | fillObsolete | fillEvenOdd | fillStroke
      | fillStrokeEvenOdd | closeFillStroke | closeFillStrokeEvenOdd | endPath =>
    exact .paintPath _ _ _ s
  case paintShading => exact .elim _ fun v => .paintShading v s
  case showText | showTextArray => exact .elim _ fun v => .text _ s
  case nextLineShowText => exact .elim _ fun v => .nextLineShowString v s
  case lineWidth | lineCap | lineJoin | miterLimit | renderingIntent | flatness | charSpacing
      | wordSpacing | horizontalScaling | leading | renderMode | rise | strokeGray | fillGray
      | strokeColorSpace | fillColorSpace =>
    refine .elim _ fun v => .state _ ?_ s
    exact fun _ => ⟨rfl, rfl, rfl, rfl, rfl, rfl⟩
  case dash =>
    split
    · refine .elim _ fun v => .state _ ?_ s
      exact fun _ => ⟨rfl, rfl, rfl, rfl, rfl, rfl⟩
    · exact .refl s
  case font =>
    split
    · exact .elim _ fun v => .text _ s
    · exact .refl s
  case concat | strokeRgb | fillRgb | strokeCmyk | fillCmyk =>
    split
    · refine .state _ ?_ s
      exact fun _ => ⟨rfl, rfl, rfl, rfl, rfl, rfl⟩
    · exact .refl s
  case moveTo | lineTo | curveTo | curveToV | curveToY | rect =>
    split
    · exact .path _ s
    · exact .refl s
  case moveText | textMatrix =>
    split
    · exact .text _ s
    · exact .refl s
  case moveTextSetLeading =>
    split
    · refine .trans (.state _ ?_ s) (.text _ _)
      exact fun _ => ⟨rfl, rfl, rfl, rfl, rfl, rfl⟩
    · exact .refl s
  case nextLineShowTextSpaced =>
    split
    · split
      · refine .trans (.trans (.state _ ?_ s) (.state _ ?_ _)) (.nextLineShowString _ _)
        · exact fun _ => ⟨rfl, rfl, rfl, rfl, rfl, rfl⟩
        · exact fun _ => ⟨rfl, rfl, rfl, rfl, rfl, rfl⟩
      · exact .refl s
    · exact .refl s

inductive Affected (options : Options K) (s : Interpreter K) : Outcome K → Prop
  | ok {u : Interpreter K} (h : Effect options s u) : Affected options s (.ok u)
  | fatal {u : Interpreter K} {fault : Fault K} (h : Effect options s u)
      (hfault : fault.isFatal = true) : Affected options s ⟨u, some fault⟩

theorem Affected.effect {options : Options K} {s : Interpreter K} {r : Outcome K}
    (h : Affected options s r) : Effect options s r.state := by
  cases h with
  | ok h => exact h
  | fatal h _ => exact h

theorem evaluateWith_valueOf {run : Run K} {options : Options K} {g : SoftMaskGroup K}
    {ctm : Transform K} {depth : Nat} {value : MaskValue K}
    (h : g.evaluateWith run options ctm depth = .ok value) :
    ∃ elements, g.valueOf ctm options elements = .ok value := by
  unfold SoftMaskGroup.evaluateWith at h
  dsimp only at h
  split at h
  · exact absurd h (by simp)
  · exact ⟨_, h⟩

theorem setSoftMask_affected (run : Run K) (options : Options K) (g : SoftMaskGroup K)
    {s u : Interpreter K} (h : Effect options s u) :
    Affected options s (u.setSoftMask run options g) := by
  unfold setSoftMask
  split
  · exact .ok (h.trans (.unmask u))
  · split
    · rename_i hvalue
      obtain ⟨elements, hvalue⟩ := evaluateWith_valueOf hvalue
      exact .ok (h.trans (.mask hvalue u))
    · split
      · exact .fatal h ‹_›
      · exact .ok (h.trans (.unmask u))

theorem setExtGState_affected (run : Run K) (options : Options K) (name : String)
    (s : Interpreter K) : Affected options s (s.setExtGState run options name) := by
  unfold setExtGState
  split
  · exact .ok (.refl s)
  · rename_i hentry
    dsimp only
    split
    · exact .ok (.extGState _ hentry)
    · exact .ok (.trans (.extGState _ hentry) (.unmask _))
    · exact setSoftMask_affected run options _ (.extGState _ hentry)

theorem setSoftMask_frame (run : Run K) (options : Options K) (g : SoftMaskGroup K)
    (s : Interpreter K) : (s.setSoftMask run options g).state =
      { s with stack := (s.setSoftMask run options g).state.stack } := by
  unfold setSoftMask
  split
  · rfl
  · split
    · rfl
    · split <;> rfl

theorem setExtGState_frame (run : Run K) (options : Options K) (name : String)
    (s : Interpreter K) : (s.setExtGState run options name).state =
      { s with stack := (s.setExtGState run options name).state.stack } := by
  unfold setExtGState
  split
  · rfl
  · dsimp only
    split
    · rfl
    · rfl
    · exact setSoftMask_frame run options _ _

end Interpreter
end ContentStream
