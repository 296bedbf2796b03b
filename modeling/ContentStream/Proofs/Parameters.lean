import Mathlib
import ContentStream.Proofs.Encounters
import ContentStream.Proofs.MaskedElements

set_option autoImplicit false

namespace ContentStream
variable {K : Type}

namespace GraphicsState

/-- The numbers of a state that each have an operator of their own. -/
def numbers (g : GraphicsState K) : List K :=
  [g.lineWidth, g.miterLimit, g.dashPhase, g.text.charSpacing, g.text.wordSpacing,
    g.text.horizontalScaling, g.text.leading, g.text.rise] ++ g.flatness.toList

structure SameColors (g h : GraphicsState K) : Prop where
  fillColor : h.fillColor = g.fillColor
  fillPattern : h.fillPattern = g.fillPattern
  strokeColor : h.strokeColor = g.strokeColor
  strokePattern : h.strokePattern = g.strokePattern

structure SameParameters (g h : GraphicsState K) : Prop extends g.SameColors h where
  dashArray : h.dashArray = g.dashArray
  numbers : h.numbers = g.numbers

theorem SameParameters.refl (g : GraphicsState K) : g.SameParameters g :=
  ⟨⟨rfl, rfl, rfl, rfl⟩, rfl, rfl⟩

theorem SameParameters.of_eq {g h : GraphicsState K} (heq : h = g) : g.SameParameters h := by
  rw [heq]
  exact .refl g

end GraphicsState

namespace Operand
variable [Scalar K]

theorem isFinite_of_popNumber {args : Stack K} {v : K} (h : (popNumber args).1 = some v) :
    Scalar.isFinite v = true := by
  cases args with
  | nil => exact absurd h (by simp [popNumber, popAs])
  | cons x args =>
    cases x with
    | number w =>
      simp only [popNumber, popAs, ite_eq_iff, Option.some.injEq, reduceCtorEq, and_false,
        or_false] at h
      exact h.2 ▸ h.1
    | _ => exact absurd h (by simp [popNumber, popAs])

theorem isFinite_of_takeNumbers {n : ℕ} {acc values : List K} {args : Stack K}
    (hacc : ∀ v ∈ acc, Scalar.isFinite v = true) (h : (takeNumbers n acc args).1 = some values) :
    ∀ v ∈ values, Scalar.isFinite v = true := by
  induction n generalizing acc args with
  | zero =>
    obtain rfl := Option.some.inj h
    exact hacc
  | succ n ih =>
    rw [takeNumbers] at h
    split at h
    · rename_i v rest hpop
      refine ih ?_ h
      exact List.forall_mem_cons.2 ⟨isFinite_of_popNumber (congrArg Prod.fst hpop), hacc⟩
    · exact absurd h (by simp)

theorem isFinite_of_popNumbers {n : ℕ} {args : Stack K} {values : List K}
    (h : (popNumbers n args).1 = some values) : ∀ v ∈ values, Scalar.isFinite v = true := by
  unfold popNumbers at h
  split at h
  · exact absurd h (by simp)
  · exact isFinite_of_takeNumbers (by simp) h

end Operand

def Color.taken (c : Color K) (args : Operand.Stack K) : List K :=
  if c.space.isPattern then
    match Operand.popName args with
    | (some _, rest) => (Operand.drainNumbers rest).1
    | (none, _) => []
  else
    let values := (Operand.drainNumbers args).1
    if values.length = c.space.componentCount ∨
        (ColorSpace.ofComponentCount? values.length).isSome then values
    else []

theorem Color.withComponents_components (c : Color K) (pattern : Option String)
    (args : Operand.Stack K) :
    (c.withComponents pattern args).1.components = c.taken args ∨
      c.taken args = [] ∧ (c.withComponents pattern args).1.components = c.components := by
  unfold withComponents taken
  split
  · rcases Operand.popName args with ⟨_ | name, rest⟩
    · exact .inr ⟨rfl, rfl⟩
    · exact .inl rfl
  · dsimp only
    split
    · rename_i hempty
      rw [List.isEmpty_iff.1 hempty]
      exact .inr ⟨ite_self _, rfl⟩
    · split
      · rename_i hcount
        rw [if_pos (.inl hcount)]
        exact .inl rfl
      · rename_i hcount
        split
        · rename_i hspace
          rw [if_pos (.inr (by rw [hspace]; rfl))]
          exact .inl rfl
        · rename_i hspace
          rw [if_neg (by simp [hcount, hspace])]
          exact .inr ⟨rfl, rfl⟩

section Taken
variable [Scalar K]

def Operator.taken (op : Operator) (args : Operand.Stack K) (g : GraphicsState K) : List K :=
  match op with
  | .dash =>
    match Operand.popNumber args with
    | (some _, rest) => (Operand.popNumberArray rest).1.getD []
    | (none, _) => []
  | .strokeColor | .strokeColorN => g.strokeColor.taken args
  | .fillColor | .fillColorN => g.fillColor.taken args
  | _ => []

inductive Recolors (r : Resources K) (args : Operand.Stack K) (taken : List K) (c : Color K)
    (p : Option String) : Color K → Option String → Prop
  | keep : Recolors r args taken c p c p
  | device (c' : Color K) (hcount : c'.components.length = c'.space.componentCount)
      (hfinite : ∀ x ∈ c'.components, Scalar.isFinite x = true) :
      Recolors r args taken c p c' none
  | select (name : String) : Recolors r args taken c p (.initial (r.resolveColorSpace name)) none
  | components (h : taken = c.taken args) :
      Recolors r args taken c p (c.withComponents p args).1 (c.withComponents p args).2

def Supplied (x : K) : Prop :=
  Scalar.isFinite x = true ∨ ∃ y : K, Scalar.isFinite y = true ∧ x = -y

theorem Supplied.of_popNumber {args : Operand.Stack K} {v : K}
    (h : (Operand.popNumber args).1 = some v) : Supplied v :=
  .inl (Operand.isFinite_of_popNumber h)

structure Writes (r : Resources K) (op : Operator) (args : Operand.Stack K)
    (g h : GraphicsState K) : Prop where
  numbers : ∀ x ∈ h.numbers, x ∈ g.numbers ∨ Supplied x
  dash : h.dashArray = g.dashArray ∨ h.dashArray = op.taken args g
  fill : Recolors r args (op.taken args g) g.fillColor g.fillPattern h.fillColor h.fillPattern
  stroke :
    Recolors r args (op.taken args g) g.strokeColor g.strokePattern h.strokeColor h.strokePattern

namespace Writes
variable {r : Resources K} {op : Operator} {args : Operand.Stack K} {g h : GraphicsState K}

theorem of_numbers (hnumbers : ∀ x ∈ h.numbers, x ∈ g.numbers ∨ Supplied x)
    (hcolors : g.SameColors h)
    (hdash : h.dashArray = g.dashArray ∨ h.dashArray = op.taken args g) : Writes r op args g h where
  numbers := hnumbers
  dash := hdash
  fill := by rw [hcolors.fillColor, hcolors.fillPattern]; exact .keep
  stroke := by rw [hcolors.strokeColor, hcolors.strokePattern]; exact .keep

theorem of_same (hsame : g.SameParameters h) : Writes r op args g h :=
  of_numbers (fun _ hx => .inl (hsame.numbers ▸ hx)) hsame.toSameColors (.inl hsame.dashArray)

theorem of_number {v : K} (i : ℕ) (hv : Supplied v) (hset : h.numbers = g.numbers.set i v)
    (hcolors : g.SameColors h)
    (hdash : h.dashArray = g.dashArray ∨ h.dashArray = op.taken args g) : Writes r op args g h := by
  refine of_numbers ?_ hcolors hdash
  intro x hx
  rw [hset] at hx
  rcases List.mem_or_eq_of_mem_set hx with hx | rfl
  · exact .inl hx
  · exact .inr hv

theorem of_fill {c : Color K} {p : Option String}
    (hfill : Recolors r args (op.taken args g) g.fillColor g.fillPattern c p) :
    Writes r op args g { g with fillColor := c, fillPattern := p } :=
  ⟨fun _ => .inl, .inl rfl, hfill, .keep⟩

theorem of_stroke {c : Color K} {p : Option String}
    (hstroke : Recolors r args (op.taken args g) g.strokeColor g.strokePattern c p) :
    Writes r op args g { g with strokeColor := c, strokePattern := p } :=
  ⟨fun _ => .inl, .inl rfl, .keep, hstroke⟩

end Writes
end Taken

namespace Interpreter
variable [Scalar K] {options : Options K}

/-- The second state has the elements of the first one and behind them some that are painted in its
graphics state. -/
def Paints (options : Options K) (s t : Interpreter K) : Prop :=
  ∃ es : List (Element K), t.elements.toList = s.elements.toList ++ es.map drawn ∧
    ∀ e ∈ es, Painted options s.state e

namespace Paints
variable {s t u : Interpreter K}

theorem of_eq (h : t.elements = s.elements) : Paints options s t :=
  ⟨[], by rw [h]; exact (List.append_nil _).symm, by simp⟩

theorem emit {e : Element K} (h : Painted options s.state e) : Paints options s (s.emit e) := by
  refine ⟨[e], ?_, List.forall_mem_singleton.2 h⟩
  rw [emit_eq]
  exact Array.toList_push

theorem trans (h : Paints options s t) (hstate : t.state = s.state) (h' : Paints options t u) :
    Paints options s u := by
  obtain ⟨es, helements, hpainted⟩ := h
  obtain ⟨es', helements', hpainted'⟩ := h'
  refine ⟨es ++ es', ?_, ?_⟩
  · rw [helements', helements, List.map_append, List.append_assoc]
  · rw [hstate] at hpainted'
    exact List.forall_mem_append.2 ⟨hpainted, hpainted'⟩

end Paints

theorem drawPath_paints (segments : List (Segment K)) (paint : Paint) (rule : FillRule)
    (s : Interpreter K) : Paints options s (s.drawPath options segments paint rule) := by
  unfold drawPath
  dsimp only
  split
  · rename_i raster hraster
    have hpainted := painted_pattern (Option.ite_none_right_eq_some.1 hraster).2
    split
    · exact (Paints.emit hpainted).trans rfl (.emit (.path _ (.inr rfl)))
    · exact .emit hpainted
  · exact .emit (.path _ (.inl rfl))

theorem paintPath_paints (paint : Paint) (rule : FillRule) (close : Bool) (s : Interpreter K) :
    Paints options s (s.paintPath options paint rule close) := by
  cases h : s.path.isEmpty with
  | true =>
    rw [paintPath_empty h]
    exact .of_eq rfl
  | false =>
    rw [paintPath_nonempty h]
    exact drawPath_paints _ paint rule { s with path := #[] }

theorem paintShading_paints (name : String) (s : Interpreter K) :
    Paints options s (s.paintShading options name) := by
  unfold paintShading
  split
  · exact .of_eq rfl
  · dsimp only
    split
    · rename_i hraster
      exact .emit (.shading _ _ _ _ _ hraster)
    · exact .of_eq rfl

theorem endText_paints (s : Interpreter K) : Paints options s s.endText := by
  unfold endText
  dsimp only
  split
  · exact .of_eq rfl
  · let closed : Interpreter K := { s with text := { s.text with isOpen := false, runs := #[] } }
    exact Paints.emit (s := closed) (.text _ rfl)

theorem clipState_sameParameters (segments : List (Segment K)) (rule : FillRule)
    (g : GraphicsState K) : g.SameParameters (clipState options segments rule g) := by
  unfold clipState
  dsimp only
  split
  · exact .refl g
  · exact ⟨⟨rfl, rfl, rfl, rfl⟩, rfl, rfl⟩

theorem clipPath_sameParameters (rule : FillRule) (s : Interpreter K) :
    s.state.SameParameters (s.clipPath options rule).state := by
  unfold clipPath
  split
  · exact .refl _
  · exact clipState_sameParameters _ _ _

structure Updates (options : Options K) (op : Operator) (args : Operand.Stack K)
    (s t : Interpreter K) : Prop where
  state : Writes s.resources op args s.state t.state
  elements : Paints options s t

namespace Updates
variable {op : Operator} {args : Operand.Stack K} {s t : Interpreter K}

theorem of_writes (h : Writes s.resources op args s.state t.state)
    (helements : t.elements = s.elements) : Updates options op args s t :=
  ⟨h, .of_eq helements⟩

theorem of_paints (hstate : t.state = s.state) (h : Paints options s t) :
    Updates options op args s t :=
  ⟨.of_same (.of_eq hstate), h⟩

theorem of_eq (hstate : t.state = s.state) (helements : t.elements = s.elements) :
    Updates options op args s t :=
  of_paints hstate (.of_eq helements)

theorem elim {α : Type} {f : α → Interpreter K} {x : Option α}
    (h : ∀ v, x = some v → Updates options op args s (f v)) :
    Updates options op args s (x.elim s f) := by
  cases x with
  | none => exact of_eq rfl rfl
  | some v => exact h v rfl

theorem popNumber (i : ℕ) {f : K → GraphicsState K → GraphicsState K}
    (hset : ∀ v, (f v s.state).numbers = s.state.numbers.set i v)
    (hcolors : ∀ v, s.state.SameColors (f v s.state))
    (hdash : ∀ v, (f v s.state).dashArray = s.state.dashArray) :
    Updates options op args s
      ((Operand.popNumber args).1.elim s fun v => s.modifyState (f v)) := by
  refine elim fun v hv => of_writes ?_ rfl
  exact .of_number i (.of_popNumber hv) (hset v) (hcolors v) (.inl (hdash v))

end Updates

theorem apply_updates (options : Options K) (op : Operator) (args : Operand.Stack K)
    (s : Interpreter K) (hsave : op ≠ .save) (hrestore : op ≠ .restore) :
    Updates options op args s (s.apply options op args) := by
  -- An index is the place of a parameter in `GraphicsState.numbers`.
  cases op <;> unfold apply <;> dsimp only
  case save => exact absurd rfl hsave
  case restore => exact absurd rfl hrestore
  case beginText | nextLine | closePath | extGState | paintXObject => exact .of_eq rfl rfl
  case endText => exact .of_paints (endText_state s) (endText_paints s)
  case clip | clipEvenOdd =>
    exact .of_writes (.of_same (clipPath_sameParameters ..)) (clipPath_elements ..)
  case stroke | closeStroke | fill | fillObsolete | fillEvenOdd | fillStroke
      | fillStrokeEvenOdd | closeFillStroke | closeFillStrokeEvenOdd | endPath =>
    exact .of_paints (paintPath_state ..) (paintPath_paints ..)
  case paintShading =>
    exact .elim fun _ _ => .of_paints (paintShading_state ..) (paintShading_paints ..)
  case showText | showTextArray | nextLineShowText => exact .elim fun _ _ => .of_eq rfl rfl
  case font =>
    split
    · exact .elim fun _ _ => .of_eq rfl rfl
    · exact .of_eq rfl rfl
  case moveTo | lineTo | curveTo | curveToV | curveToY | rect | moveText | textMatrix =>
    split <;> exact .of_eq rfl rfl
  case lineCap | lineJoin | renderingIntent | renderMode =>
    refine .elim fun _ _ => .of_writes (.of_same ?_) rfl
    exact ⟨⟨rfl, rfl, rfl, rfl⟩, rfl, rfl⟩
  case concat =>
    split
    · refine .of_writes (.of_same ?_) rfl
      exact ⟨⟨rfl, rfl, rfl, rfl⟩, rfl, rfl⟩
    · exact .of_eq rfl rfl
  case strokeColor | strokeColorN =>
    exact .of_writes (.of_stroke (.components rfl)) rfl
  case fillColor | fillColorN => exact .of_writes (.of_fill (.components rfl)) rfl
  case strokeColorSpace => exact .elim fun name _ => .of_writes (.of_stroke (.select name)) rfl
  case fillColorSpace => exact .elim fun name _ => .of_writes (.of_fill (.select name)) rfl
  case lineWidth =>
    exact .popNumber 0 (fun _ => rfl) (fun _ => ⟨rfl, rfl, rfl, rfl⟩) fun _ => rfl
  case miterLimit =>
    exact .popNumber 1 (fun _ => rfl) (fun _ => ⟨rfl, rfl, rfl, rfl⟩) fun _ => rfl
  case charSpacing =>
    exact .popNumber 3 (fun _ => rfl) (fun _ => ⟨rfl, rfl, rfl, rfl⟩) fun _ => rfl
  case wordSpacing =>
    exact .popNumber 4 (fun _ => rfl) (fun _ => ⟨rfl, rfl, rfl, rfl⟩) fun _ => rfl
  case horizontalScaling =>
    exact .popNumber 5 (fun _ => rfl) (fun _ => ⟨rfl, rfl, rfl, rfl⟩) fun _ => rfl
  case leading =>
    exact .popNumber 6 (fun _ => rfl) (fun _ => ⟨rfl, rfl, rfl, rfl⟩) fun _ => rfl
  case rise =>
    exact .popNumber 7 (fun _ => rfl) (fun _ => ⟨rfl, rfl, rfl, rfl⟩) fun _ => rfl
  case flatness =>
    refine .elim fun v hv => .of_writes (.of_numbers ?_ ⟨rfl, rfl, rfl, rfl⟩ (.inl rfl)) rfl
    intro x hx
    rcases List.mem_append.1 hx with hx | hx
    · exact .inl (List.mem_append_left _ hx)
    · obtain rfl := List.mem_singleton.1 hx
      exact .inr (.of_popNumber hv)
  case dash =>
    split
    · rename_i phase rest hpop
      refine .elim fun array harray => .of_writes (.of_number 2 ?_ rfl ⟨rfl, rfl, rfl, rfl⟩ ?_) rfl
      · exact .of_popNumber (congrArg Prod.fst hpop)
      · right
        simp only [Operator.taken, hpop, harray]
        rfl
    · exact .of_eq rfl rfl
  case moveTextSetLeading =>
    split
    · rename_i x y hvalues
      have hy : Scalar.isFinite y = true := Operand.isFinite_of_popNumbers hvalues y (by simp)
      exact .of_writes
        (.of_number 6 (.inr ⟨y, hy, rfl⟩) rfl ⟨rfl, rfl, rfl, rfl⟩ (.inl rfl)) rfl
    · exact .of_eq rfl rfl
  case nextLineShowTextSpaced =>
    split
    · split
      · rename_i word char hvalues
        have hfinite := Operand.isFinite_of_popNumbers hvalues
        refine .of_writes (.of_numbers ?_ ⟨rfl, rfl, rfl, rfl⟩ (.inl rfl)) rfl
        change ∀ x ∈ (s.state.numbers.set 4 word).set 3 char, _
        intro x hx
        rcases List.mem_or_eq_of_mem_set hx with hx | rfl
        · rcases List.mem_or_eq_of_mem_set hx with hx | rfl
          · exact .inl hx
          · exact .inr (.inl (hfinite x (by simp)))
        · exact .inr (.inl (hfinite x (by simp)))
      · exact .of_eq rfl rfl
    · exact .of_eq rfl rfl
  case strokeGray =>
    refine .elim fun v hv => .of_writes (.of_stroke (.device (.gray v) rfl ?_)) rfl
    exact List.forall_mem_singleton.2 (Operand.isFinite_of_popNumber hv)
  case fillGray =>
    refine .elim fun v hv => .of_writes (.of_fill (.device (.gray v) rfl ?_)) rfl
    exact List.forall_mem_singleton.2 (Operand.isFinite_of_popNumber hv)
  case strokeRgb | strokeCmyk =>
    split
    · rename_i hvalues
      refine .of_writes (.of_stroke (.device _ ?_ (Operand.isFinite_of_popNumbers hvalues))) rfl
      rfl
    · exact .of_eq rfl rfl
  case fillRgb | fillCmyk =>
    split
    · rename_i hvalues
      refine .of_writes (.of_fill (.device _ ?_ (Operand.isFinite_of_popNumbers hvalues))) rfl
      rfl
    · exact .of_eq rfl rfl

/-- The numbers that an operator takes without a look at them are in the state afterwards. -/
theorem taken_subset (options : Options K) (op : Operator) (args : Operand.Stack K)
    (s : Interpreter K) {x : K} (hx : x ∈ op.taken args s.state) :
    let t := (s.apply options op args).state
    x ∈ t.dashArray ∨ x ∈ t.fillColor.components ∨ x ∈ t.strokeColor.components := by
  intro t
  have hcomponents : ∀ (c : Color K) (p : Option String), x ∈ c.taken args →
      x ∈ (c.withComponents p args).1.components := by
    intro c p hc
    rcases c.withComponents_components p args with heq | ⟨hnone, -⟩
    · rwa [heq]
    · rw [hnone] at hc
      exact absurd hc List.not_mem_nil
  cases op with
  | strokeColor | strokeColorN => exact .inr (.inr (hcomponents _ s.state.strokePattern hx))
  | fillColor | fillColorN => exact .inr (.inl (hcomponents _ s.state.fillPattern hx))
  | dash =>
    left
    change x ∈ (s.apply options .dash args).state.dashArray
    rcases hpop : Operand.popNumber args with ⟨_ | phase, rest⟩
    · simp [Operator.taken, hpop] at hx
    · simp only [Operator.taken, hpop] at hx
      simp only [apply, hpop]
      cases harray : (Operand.popNumberArray rest).1 with
      | none => simp [harray] at hx
      | some array =>
        rw [harray] at hx
        exact hx
  | _ => exact absurd hx List.not_mem_nil

theorem setSoftMask_sameParameters (run : Run K) (g : SoftMaskGroup K) (s : Interpreter K) :
    s.state.SameParameters (s.setSoftMask run options g).state.state := by
  have hclear : s.state.SameParameters s.state.clearSoftMask :=
    ⟨⟨rfl, rfl, rfl, rfl⟩, rfl, rfl⟩
  unfold setSoftMask
  split
  · exact hclear
  · split
    · rename_i value _
      cases value <;> exact ⟨⟨rfl, rfl, rfl, rfl⟩, rfl, rfl⟩
    · split
      · exact .refl _
      · exact hclear

theorem setExtGState_parameters (run : Run K) (name : String) (s : Interpreter K) :
    s.state.SameParameters (s.setExtGState run options name).state.state ∨
      ∃ e, s.resources.extGState? name = some e ∧
        (s.state.applyExtGState e).SameParameters
          (s.setExtGState run options name).state.state := by
  unfold setExtGState
  split
  · exact .inl (.refl _)
  · rename_i e hentry
    refine .inr ⟨e, hentry, ?_⟩
    dsimp only
    split
    · exact .refl _
    · exact ⟨⟨rfl, rfl, rfl, rfl⟩, rfl, rfl⟩
    · exact setSoftMask_sameParameters run _ (s.modifyState (.applyExtGState e))

end Interpreter

theorem Painted.sameParameters [Scalar K] {options : Options K} {g : GraphicsState K}
    {e : Element K} (h : Painted options g e) :
    g.SameParameters e.state ∨ g.clearFillPattern.SameParameters e.state := by
  have hraster : ∀ {d : Shading K} {toPage : Transform K} {region : Rect K}
      {path : Option (List (Subpath K) × FillRule)} {r : RasterImage K},
      d.rasterize? toPage region path options.shadingBudget g = some r →
      r.state = { g with ctm := region.placement } := fun hr => (Shading.rasterize?_spec hr).2.1
  cases h with
  | path e he =>
    rcases he with he | he
    · exact .inl (.of_eq he)
    · exact .inr (.of_eq he)
  | text e he => exact .inl (.of_eq he)
  | image e he => exact .inl (.of_eq he)
  | shading d toPage region path r hr =>
    left
    change g.SameParameters r.state
    rw [hraster hr]
    exact ⟨⟨rfl, rfl, rfl, rfl⟩, rfl, rfl⟩
  | pattern d toPage region path r hr =>
    right
    change g.clearFillPattern.SameParameters r.state.clearFillPattern
    rw [hraster hr]
    exact ⟨⟨rfl, rfl, rfl, rfl⟩, rfl, rfl⟩

end ContentStream
