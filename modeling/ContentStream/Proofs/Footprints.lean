import Mathlib
import ContentStream.Proofs.Steps

set_option autoImplicit false

namespace ContentStream
variable {K : Type}

def Element.segments? : Element K → Option (List (Segment K))
  | .path e => some e.segments
  | _ => none

namespace Interpreter

def AddsNoPath (s t : Interpreter K) : Prop :=
  ∃ es : List (Element K), (∀ e ∈ es, e.segments? = none) ∧
    t.elements.toList = s.elements.toList ++ es

structure Footprint (op : Operator) (s t : Interpreter K) : Prop where
  path : op.category ≠ .pathConstruction → op.category ≠ .pathPainting → t.path = s.path
  isOpen : op ≠ .beginText → op ≠ .endText → t.text.isOpen = s.text.isOpen
  elements : op.category ≠ .pathPainting → s.AddsNoPath t

section Frames
variable {op : Operator} {s t : Interpreter K}

theorem AddsNoPath.of_eq (h : t.elements = s.elements) : s.AddsNoPath t :=
  ⟨[], by simp, by rw [h, List.append_nil]⟩

theorem Footprint.of_eq (hpath : t.path = s.path) (htext : t.text.isOpen = s.text.isOpen)
    (helements : t.elements = s.elements) : Footprint op s t :=
  ⟨fun _ _ => hpath, fun _ _ => htext, fun _ => .of_eq helements⟩

theorem Footprint.elim {α : Type} {f : α → Interpreter K} (x : Option α)
    (h : ∀ v, Footprint op s (f v)) : Footprint op s (x.elim s f) := by
  cases x with
  | none => exact .of_eq rfl rfl rfl
  | some v => exact h v

theorem Footprint.of_painting (h : op.category = .pathPainting) (htext : t.text = s.text) :
    Footprint op s t where
  path _ hpainting := absurd h hpainting
  isOpen _ _ := congrArg TextObject.isOpen htext
  elements hpainting := absurd h hpainting

theorem Footprint.of_construction (h : op.category = .pathConstruction) (x : Segment K) :
    Footprint op s (s.addSegment x) where
  path hconstruction := absurd h hconstruction
  isOpen _ _ := rfl
  elements _ := .of_eq rfl

end Frames

variable [Scalar K] {options : Options K}

theorem AddsNoPath.emit {e : Element K} (he : e.segments? = none) (s : Interpreter K) :
    s.AddsNoPath (s.emit e) := by
  refine ⟨[drawn e], ?_, Array.toList_push⟩
  intro e' he'
  obtain rfl := List.mem_singleton.1 he'
  exact drawn_induction (·.segments? = none) he fun _ _ => rfl

theorem drawPath_frame (segments : List (Segment K)) (paint : Paint) (rule : FillRule)
    (s : Interpreter K) : s.drawPath options segments paint rule =
      { s with elements := (s.drawPath options segments paint rule).elements } := by
  unfold drawPath
  dsimp only
  split
  · split <;> rfl
  · rfl

theorem paintPath_empty {s : Interpreter K} (h : s.path.isEmpty = true) (paint : Paint)
    (rule : FillRule) (close : Bool) : s.paintPath options paint rule close = s :=
  if_pos h

theorem paintPath_nonempty {s : Interpreter K} (h : s.path.isEmpty = false) (paint : Paint)
    (rule : FillRule) (close : Bool) : s.paintPath options paint rule close =
      { s with path := #[] }.drawPath options
        (s.path.toList ++ if close then [Segment.close] else []) paint rule := by
  unfold paintPath
  rw [h]
  rfl

theorem paintPath_text (paint : Paint) (rule : FillRule) (close : Bool) (s : Interpreter K) :
    (s.paintPath options paint rule close).text = s.text := by
  cases h : s.path.isEmpty with
  | true => rw [paintPath_empty h]
  | false => rw [paintPath_nonempty h, drawPath_frame]

theorem clipPath_text (rule : FillRule) (s : Interpreter K) :
    (s.clipPath options rule).text = s.text := by
  unfold clipPath
  split <;> rfl

theorem endText_footprint (s : Interpreter K) : Footprint .endText s s.endText := by
  unfold Interpreter.endText
  dsimp only
  split
  · exact ⟨fun _ _ => rfl, fun _ h => absurd rfl h, fun _ => .of_eq rfl⟩
  · refine ⟨fun _ _ => rfl, fun _ h => absurd rfl h, fun _ => ?_⟩
    exact AddsNoPath.emit rfl { s with text := { s.text with isOpen := false, runs := #[] } }

theorem paintShading_footprint (name : String) (s : Interpreter K) :
    Footprint .paintShading s (s.paintShading options name) := by
  unfold Interpreter.paintShading
  split
  · exact .of_eq rfl rfl rfl
  · dsimp only
    split
    · exact ⟨fun _ _ => rfl, fun _ _ => rfl, fun _ => .emit rfl s⟩
    · exact .of_eq rfl rfl rfl

theorem showItem_isOpen (state : GraphicsState K) (t : TextObject K) (item : Operand K) :
    (t.showItem state item).isOpen = t.isOpen := by
  cases item <;> rfl

theorem showItems_isOpen (state : GraphicsState K) (items : List (Operand K)) (t : TextObject K) :
    (items.foldl (fun t item => t.showItem state item) t).isOpen = t.isOpen := by
  induction items generalizing t with
  | nil => rfl
  | cons item items ih => exact (ih _).trans (showItem_isOpen state t item)

theorem apply_footprint (options : Options K) (op : Operator) (args : Operand.Stack K)
    (s : Interpreter K) : Footprint op s (s.apply options op args) := by
  cases op <;> unfold apply <;> dsimp only
  case stroke | closeStroke | fill | fillObsolete | fillEvenOdd | fillStroke
      | fillStrokeEvenOdd | closeFillStroke | closeFillStrokeEvenOdd | endPath =>
    exact .of_painting rfl (paintPath_text ..)
  case clip | clipEvenOdd => exact .of_painting rfl (clipPath_text ..)
  case closePath => exact .of_construction rfl _
  case moveTo | lineTo | curveTo | curveToV | curveToY | rect =>
    split
    · exact .of_construction rfl _
    · exact .of_eq rfl rfl rfl
  case beginText => exact ⟨fun _ _ => rfl, fun h => absurd rfl h, fun _ => .of_eq rfl⟩
  case endText => exact endText_footprint s
  case paintShading => exact .elim _ fun _ => paintShading_footprint _ s
  case showTextArray =>
    exact .elim _ fun items => .of_eq rfl (showItems_isOpen s.state items s.text) rfl
  case lineWidth | lineCap | lineJoin | miterLimit | renderingIntent | flatness | charSpacing
      | wordSpacing | horizontalScaling | leading | renderMode | rise | strokeGray | fillGray
      | strokeColorSpace | fillColorSpace | showText | nextLineShowText =>
    exact .elim _ fun _ => .of_eq rfl rfl rfl
  case dash | font =>
    split
    · exact .elim _ fun _ => .of_eq rfl rfl rfl
    · exact .of_eq rfl rfl rfl
  case nextLineShowTextSpaced =>
    split
    · split <;> exact .of_eq rfl rfl rfl
    · exact .of_eq rfl rfl rfl
  case concat | strokeRgb | fillRgb | strokeCmyk | fillCmyk | moveText | moveTextSetLeading
      | textMatrix =>
    split <;> exact .of_eq rfl rfl rfl
  all_goals exact .of_eq rfl rfl rfl

end Interpreter
end ContentStream
