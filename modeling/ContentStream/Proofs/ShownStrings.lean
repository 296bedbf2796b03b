import Mathlib
import ContentStream.Proofs.ConstantMask
import ContentStream.Proofs.InlinedForms
import ContentStream.Proofs.Invariants
import ContentStream.Proofs.PendingPath

set_option autoImplicit false

/-!
# Shown strings

Each string that is shown becomes one run of the text object, and the runs of an object are drawn
together when it is closed. So the runs of what has been drawn and those that are still held add up
to what has been shown, as long as no object is begun while another one holds runs.
-/
namespace ContentStream
variable {K : Type}

namespace Operand

def bytes? : Operand K → Option (List UInt8)
  | .string bytes => some bytes
  | _ => none

theorem lastFinite?_two [Scalar K] (args : Stack K) :
    lastFinite? 2 args = none ∨ ∃ v w, lastFinite? 2 args = some [v, w] := by
  match args with
  | [] | [_] => exact .inl rfl
  | y :: x :: rest =>
    have hpair : lastFinite? 2 (y :: x :: rest) = [x, y].mapM finite? := by
      simp [lastFinite?]
    rw [hpair]
    cases hx : x.finite? <;> cases hy : y.finite? <;> simp [hx, hy]

end Operand

def Element.runs : Element K → List (TextRun K)
  | .text e => e.runs
  | _ => []

namespace Operator

def showsText : Operator → Bool
  | showText | showTextArray | nextLineShowText | nextLineShowTextSpaced => true
  | _ => false

/-- The strings that an operator shows with its operands, last operand first: its string, if that
is the last operand and finite spacings stand before it where they are asked for, or the strings
among the items of its array. -/
def shownStrings [Scalar K] (op : Operator) (args : Operand.Stack K) : List (List UInt8) :=
  match op, args with
  | showText, .string bytes :: _ => [bytes]
  | nextLineShowText, .string bytes :: _ => [bytes]
  | nextLineShowTextSpaced, .string bytes :: rest =>
    if (Operand.lastFinite? 2 rest).isSome then [bytes] else []
  | showTextArray, .array items :: _ => items.filterMap Operand.bytes?
  | _, _ => []

theorem shownStrings_of_not_showsText [Scalar K] {op : Operator} (h : op.showsText = false)
    (args : Operand.Stack K) : op.shownStrings args = [] := by
  cases op <;> first | rfl | exact absurd h (by decide)

end Operator

/-- The second text object holds, behind the runs of the first one, a run for each of the strings,
shown in the given state. -/
def TextObject.Shown [Scalar K] (g : GraphicsState K) (strings : List (List UInt8))
    (t u : TextObject K) : Prop :=
  ∃ new : List (TextRun K), u.runs.toList = t.runs.toList ++ new ∧
    new.map TextRun.bytes = strings ∧ ∀ r ∈ new, ∃ x : TextObject K, r = x.runOf g r.bytes

namespace TextObject.Shown
variable [Scalar K] {g : GraphicsState K} {strings strings' : List (List UInt8)}
  {t u v : TextObject K}

theorem of_eq (h : u.runs = t.runs) : Shown g [] t u :=
  ⟨[], by rw [h, List.append_nil], rfl, by simp⟩

theorem of_showString (h : t.runs = v.runs) (bytes : List UInt8) :
    Shown g [bytes] v (t.showString g bytes) := by
  refine ⟨[t.runOf g bytes], ?_, rfl, ?_⟩
  · change (t.runs.push _).toList = _
    rw [Array.toList_push, h]
  · intro r hr
    obtain rfl := List.mem_singleton.1 hr
    exact ⟨t, rfl⟩

theorem append (h : Shown g strings t u) (h' : Shown g strings' u v) :
    Shown g (strings ++ strings') t v := by
  obtain ⟨new, hruns, hbytes, hnew⟩ := h
  obtain ⟨new', hruns', hbytes', hnew'⟩ := h'
  refine ⟨new ++ new', ?_, by rw [List.map_append, hbytes, hbytes'], ?_⟩
  · rw [hruns', hruns, List.append_assoc]
  · intro r hr
    rcases List.mem_append.1 hr with hr | hr
    · exact hnew r hr
    · exact hnew' r hr

theorem showItem (t : TextObject K) (item : Operand K) :
    Shown g item.bytes?.toList t (t.showItem g item) := by
  cases item with
  | string bytes => exact of_showString rfl bytes
  | _ => exact of_eq rfl

theorem showItems (items : List (Operand K)) (t : TextObject K) :
    Shown g (items.filterMap Operand.bytes?) t
      (items.foldl (fun t item => t.showItem g item) t) := by
  induction items generalizing t with
  | nil => exact of_eq rfl
  | cons item items ih =>
    have hfilter : (item :: items).filterMap Operand.bytes? =
        item.bytes?.toList ++ items.filterMap Operand.bytes? := by
      cases h : item.bytes? <;> simp [h]
    rw [hfilter]
    exact (showItem t item).append (ih _)

end TextObject.Shown

namespace Interpreter

def AddsNoText (s t : Interpreter K) : Prop :=
  ∃ es : List (Element K), (∀ e ∈ es, e.runs = []) ∧
    t.elements.toList = s.elements.toList ++ es

namespace AddsNoText
variable {s t u : Interpreter K}

theorem of_eq (h : t.elements = s.elements) : s.AddsNoText t :=
  ⟨[], by simp, by rw [h, List.append_nil]⟩

theorem trans (h : s.AddsNoText t) (h' : t.AddsNoText u) : s.AddsNoText u := by
  obtain ⟨es, hes, helements⟩ := h
  obtain ⟨es', hes', helements'⟩ := h'
  refine ⟨es ++ es', ?_, by rw [helements', helements, List.append_assoc]⟩
  intro e he
  rcases List.mem_append.1 he with he | he
  · exact hes e he
  · exact hes' e he

theorem emit [Scalar K] {e : Element K} (he : e.runs = []) (s : Interpreter K) :
    s.AddsNoText (s.emit e) := by
  refine ⟨[drawn e], ?_, Array.toList_push⟩
  intro e' he'
  obtain rfl := List.mem_singleton.1 he'
  exact drawn_induction (·.runs = []) he fun _ _ => rfl

end AddsNoText

variable [Scalar K] {options : Options K}

structure Typesets (op : Operator) (args : Operand.Stack K) (s t : Interpreter K) : Prop where
  shown : op ≠ .beginText → op ≠ .endText → s.text.Shown t.state (op.shownStrings args) t.text
  elements : op ≠ .endText → s.AddsNoText t

namespace Typesets
variable {op : Operator} {args : Operand.Stack K} {s t : Interpreter K}

theorem of_eq (h : op.shownStrings args = []) (hruns : t.text.runs = s.text.runs)
    (helements : t.elements = s.elements) : Typesets op args s t where
  shown _ _ := by
    rw [h]
    exact .of_eq hruns
  elements _ := .of_eq helements

theorem of_drawing (h : op.shownStrings args = []) (htext : t.text = s.text)
    (helements : s.AddsNoText t) : Typesets op args s t where
  shown _ _ := by
    rw [h]
    exact .of_eq (congrArg TextObject.runs htext)
  elements _ := helements

theorem of_showing (hstate : t.state = s.state)
    (h : s.text.Shown s.state (op.shownStrings args) t.text)
    (helements : t.elements = s.elements) : Typesets op args s t where
  shown _ _ := by
    rw [hstate]
    exact h
  elements _ := .of_eq helements

theorem elim {α : Type} {f : α → Interpreter K} (h : op.shownStrings args = []) (x : Option α)
    (hf : ∀ v, Typesets op args s (f v)) : Typesets op args s (x.elim s f) := by
  cases x with
  | none => exact .of_eq h rfl rfl
  | some v => exact hf v

end Typesets

theorem drawPath_addsNoText (segments : List (Segment K)) (paint : Paint) (rule : FillRule)
    (s : Interpreter K) : s.AddsNoText (s.drawPath options segments paint rule) := by
  unfold drawPath
  dsimp only
  split
  · split
    · exact .trans (.emit rfl s) (.emit rfl _)
    · exact .emit rfl s
  · exact .emit rfl s

theorem paintPath_addsNoText (paint : Paint) (rule : FillRule) (close : Bool)
    (s : Interpreter K) : s.AddsNoText (s.paintPath options paint rule close) := by
  unfold paintPath
  split
  · exact .of_eq rfl
  · exact drawPath_addsNoText (s := { s with path := #[] }) _ _ _

theorem clipPath_elements (rule : FillRule) (s : Interpreter K) :
    (s.clipPath options rule).elements = s.elements := by
  unfold clipPath
  split <;> rfl

theorem paintShading_typesets (args : Operand.Stack K) (name : String) (s : Interpreter K) :
    Typesets .paintShading args s (s.paintShading options name) := by
  unfold paintShading
  split
  · exact .of_eq rfl rfl rfl
  · dsimp only
    split
    · exact .of_drawing rfl rfl (.emit rfl s)
    · exact .of_eq rfl rfl rfl

theorem showTextArray_typesets (args : Operand.Stack K) (s : Interpreter K) :
    Typesets .showTextArray args s (s.apply options .showTextArray args) := by
  have hnone : Operator.showTextArray.shownStrings args = [] →
      (Operand.popArray args).1 = none →
        Typesets .showTextArray args s (s.apply options .showTextArray args) := by
    intro h hargs
    change Typesets _ args s ((Operand.popArray args).1.elim s _)
    rw [hargs]
    exact .of_eq h rfl rfl
  cases args with
  | nil => exact hnone rfl rfl
  | cons x rest =>
    cases x with
    | array items => exact .of_showing rfl (.showItems items s.text) rfl
    | _ => exact hnone rfl rfl

theorem showString_typesets {op : Operator} (h : op = .showText ∨ op = .nextLineShowText)
    (args : Operand.Stack K) (s : Interpreter K) :
    Typesets op args s (s.apply options op args) := by
  cases args with
  | nil => rcases h with rfl | rfl <;> exact .of_eq rfl rfl rfl
  | cons x rest =>
    cases x with
    | string bytes =>
      rcases h with rfl | rfl <;> exact .of_showing rfl (.of_showString rfl bytes) rfl
    | _ => rcases h with rfl | rfl <;> exact .of_eq rfl rfl rfl

theorem nextLineShowTextSpaced_typesets (args : Operand.Stack K) (s : Interpreter K) :
    Typesets .nextLineShowTextSpaced args s (s.apply options .nextLineShowTextSpaced args) := by
  cases args with
  | nil => exact .of_eq rfl rfl rfl
  | cons x rest =>
    cases x with
    | string bytes =>
      have hnumbers : (Operand.popNumbers 2 rest).1 = Operand.lastFinite? 2 rest :=
        Operand.popNumbers_eq 2 rest
      have hstrings : Operator.nextLineShowTextSpaced.shownStrings (.string bytes :: rest) =
          if (Operand.lastFinite? 2 rest).isSome then [bytes] else [] := rfl
      unfold apply
      dsimp only [Operand.popString, Operand.popAs]
      rw [hnumbers]
      rcases Operand.lastFinite?_two rest with hnone | ⟨word, char, hsome⟩
      · rw [hnone] at hstrings ⊢
        exact .of_eq hstrings rfl rfl
      · rw [hsome] at hstrings ⊢
        let u := ((s.setWordSpacing word).setCharSpacing char).nextLine
        have hshown : s.text.Shown u.state [bytes] (u.showString bytes).text :=
          .of_showString rfl bytes
        refine ⟨fun _ _ => ?_, fun _ => .of_eq rfl⟩
        rw [hstrings]
        exact hshown
    | _ => exact .of_eq rfl rfl rfl

theorem apply_typesets (options : Options K) (op : Operator) (args : Operand.Stack K)
    (s : Interpreter K) : Typesets op args s (s.apply options op args) := by
  cases op
  case showText => exact showString_typesets (.inl rfl) args s
  case nextLineShowText => exact showString_typesets (.inr rfl) args s
  case showTextArray => exact showTextArray_typesets args s
  case nextLineShowTextSpaced => exact nextLineShowTextSpaced_typesets args s
  all_goals unfold apply; dsimp only
  case beginText => exact ⟨fun h => absurd rfl h, fun _ => .of_eq rfl⟩
  case endText => exact ⟨fun _ h => absurd rfl h, fun h => absurd rfl h⟩
  case stroke | closeStroke | fill | fillObsolete | fillEvenOdd | fillStroke
      | fillStrokeEvenOdd | closeFillStroke | closeFillStrokeEvenOdd | endPath =>
    exact .of_drawing rfl (paintPath_text ..) (paintPath_addsNoText ..)
  case clip | clipEvenOdd =>
    exact .of_drawing rfl (clipPath_text ..) (.of_eq (clipPath_elements ..))
  case paintShading => exact .elim rfl _ fun _ => paintShading_typesets args _ s
  case lineWidth | lineCap | lineJoin | miterLimit | renderingIntent | flatness | charSpacing
      | wordSpacing | horizontalScaling | leading | renderMode | rise | strokeGray | fillGray
      | strokeColorSpace | fillColorSpace =>
    exact .elim rfl _ fun _ => .of_eq rfl rfl rfl
  case dash | font =>
    split
    · exact .elim rfl _ fun _ => .of_eq rfl rfl rfl
    · exact .of_eq rfl rfl rfl
  case concat | strokeRgb | fillRgb | strokeCmyk | fillCmyk | moveText | moveTextSetLeading
      | textMatrix | moveTo | lineTo | curveTo | curveToV | curveToY | rect =>
    split <;> exact .of_eq rfl rfl rfl
  all_goals exact .of_eq rfl rfl rfl

def strings (s : Interpreter K) : List (List UInt8) :=
  (s.elements.toList.flatMap Element.runs ++ s.text.runs.toList).map TextRun.bytes

def stringsShown (ts : List (Token K)) (s : Interpreter K) : List (List UInt8) :=
  (calls ts s).flatMap fun c => (Operator.ofName? c.1).elim [] fun op => op.shownStrings c.2

/-- No string is shown outside of a text object, and no object is begun inside one. -/
def standsWell (isOpen : Bool) : Token K → Bool
  | .operator name =>
    match Operator.ofName? name with
    | some .beginText => !isOpen
    | some op => !op.showsText || isOpen
    | none => true
  | _ => true

def textBracketed : Bool → List (Token K) → Bool
  | _, [] => true
  | isOpen, t :: ts => standsWell isOpen t && textBracketed (textOpen isOpen t) ts

/-- The token draws no form, and closes no text object under a soft mask grid. -/
structure LetsTextThrough (options : Options K) (t : Token K) (s : Interpreter K) : Prop where
  noForm : t = .operator "Do" → ∀ name form, ¬ DrawsForm options s name form
  unmasked : t = .operator "ET" → s.state.softMask = none

omit [Scalar K] in
theorem strings_append {s t : Interpreter K} (h : s.AddsNoText t) {new : List (TextRun K)}
    (hruns : t.text.runs.toList = s.text.runs.toList ++ new) :
    t.strings = s.strings ++ new.map TextRun.bytes := by
  obtain ⟨es, hes, helements⟩ := h
  have hnone : es.flatMap Element.runs = [] := List.flatMap_eq_nil_iff.2 hes
  unfold strings
  rw [helements, hruns, List.flatMap_append, hnone, List.append_nil, ← List.append_assoc,
    List.map_append]

omit [Scalar K] in
theorem strings_of_addsNoText {s t : Interpreter K} (h : s.AddsNoText t)
    (hruns : t.text.runs = s.text.runs) : t.strings = s.strings := by
  have hnone : t.text.runs.toList = s.text.runs.toList ++ [] := by rw [hruns, List.append_nil]
  exact (strings_append h hnone).trans (List.append_nil _)

theorem endText_elements {s : Interpreter K} (h : s.text.runs ≠ #[]) :
    s.endText.elements = s.elements.push (drawn (.text ⟨s.text.runs.toList, s.state⟩)) := by
  unfold endText
  dsimp only
  rw [if_neg fun hempty => h (Array.isEmpty_iff.1 hempty)]
  rfl

theorem endText_empty {s : Interpreter K} (h : s.text.runs = #[]) :
    s.endText.elements = s.elements := by
  unfold endText
  dsimp only
  rw [if_pos (Array.isEmpty_iff.2 h)]

theorem endText_runs (s : Interpreter K) : s.endText.text.runs = #[] := by
  unfold endText
  dsimp only
  split <;> rfl

theorem endText_strings {s : Interpreter K}
    (hmask : s.text.runs ≠ #[] → s.state.softMask = none) : s.endText.strings = s.strings := by
  have helements : s.endText.elements.toList.flatMap Element.runs =
      s.elements.toList.flatMap Element.runs ++ s.text.runs.toList := by
    by_cases hruns : s.text.runs = #[]
    · rw [endText_empty hruns, hruns, List.append_nil]
    · let e : TextElement K := ⟨s.text.runs.toList, s.state⟩
      have hdrawn : drawn (.text e) = .text e := drawn_of_unmasked (hmask hruns)
      rw [endText_elements hruns, hdrawn, Array.toList_push, List.flatMap_append,
        List.flatMap_singleton]
      rfl
  unfold strings
  rw [helements, endText_runs, List.append_nil]

section Step
variable {t : Token K} {s : Interpreter K}

theorem apply_strings {name : String} {op : Operator} (hop : Operator.ofName? name = some op)
    (hstands : standsWell s.text.isOpen (.operator name : Token K) = true)
    (hclosed : s.text.isOpen = false → s.text.runs = #[])
    (hmask : op = .endText → s.state.softMask = none) :
    let u := s.cleared.apply options op s.operands
    u.strings = s.strings ++ op.shownStrings s.operands ∧
      (u.text.isOpen = false → u.text.runs = #[]) := by
  intro u
  by_cases hbegin : op = .beginText
  · subst hbegin
    have hopen : s.text.isOpen = false := by simpa [standsWell, hop] using hstands
    have hstrings : u.strings = s.strings :=
      strings_of_addsNoText (.of_eq rfl) (hclosed hopen).symm
    exact ⟨hstrings.trans (List.append_nil _).symm, fun _ => rfl⟩
  by_cases hend : op = .endText
  · subst hend
    have hstrings : u.strings = s.strings := endText_strings (s := s.cleared) fun _ => hmask rfl
    exact ⟨hstrings.trans (List.append_nil _).symm, fun _ => endText_runs s.cleared⟩
  have htypesets : Typesets op s.operands s.cleared u := apply_typesets options op _ _
  obtain ⟨new, hruns, hbytes, -⟩ := htypesets.shown hbegin hend
  refine ⟨?_, fun hopen => ?_⟩
  · rw [← hbytes]
    exact strings_append (htypesets.elements hend) hruns
  · have hopen' : s.text.isOpen = false :=
      ((apply_footprint options op s.operands s.cleared).isOpen hbegin hend).symm.trans hopen
    have hshows : op.showsText = false := by
      cases op <;> first | contradiction | simpa [standsWell, hop, hopen'] using hstands
    rw [Operator.shownStrings_of_not_showsText hshows, List.map_eq_nil_iff] at hbytes
    rw [hbytes, List.append_nil] at hruns
    exact (Array.toList_inj.1 hruns).trans (hclosed hopen')

/-- What a token adds to the runs drawn and held is what it shows. -/
theorem step_strings (hstands : standsWell s.text.isOpen t = true)
    (hclosed : s.text.isOpen = false → s.text.runs = #[]) (h : LetsTextThrough options t s) :
    let u := (s.step (execute options) options t).state
    u.strings = s.strings ++ stringsShown [t] s ∧
      (u.text.isOpen = false → u.text.runs = #[]) := by
  have hquiet : ∀ u : Interpreter K, s.AddsNoText u → u.text = s.text →
      stringsShown [t] s = [] → u.strings = s.strings ++ stringsShown [t] s ∧
        (u.text.isOpen = false → u.text.runs = #[]) := by
    intro u hadds htext hnone
    rw [hnone, List.append_nil, htext]
    exact ⟨strings_of_addsNoText hadds (congrArg TextObject.runs htext), hclosed⟩
  have hperformed := performed (execute options) options t s
  generalize s.step (execute options) options t = r at hperformed
  cases hperformed with
  | operand hoperand =>
    refine hquiet (s.read t) (.of_eq ?_) ?_ ?_
    · rw [read_frame]
    · rw [read_frame]
    · cases t with
      | operator name => exact absurd hoperand (by simp [Token.isOperator])
      | _ => rfl
  | unknown hop => exact hquiet s.cleared (.of_eq rfl) rfl (by simp [stringsShown, calls, hop])
  | @apply name op hop _ _ =>
    have hmask : op = .endText → s.state.softMask = none := by
      rintro rfl
      exact h.unmasked (congrArg _ (Operator.ofName?_inj hop rfl))
    have hshown : stringsShown [.operator name] s = op.shownStrings s.operands := by
      simp [stringsShown, calls, hop]
    rw [hshown]
    exact apply_strings hop hstands hclosed hmask
  | extGState _ hframe =>
    refine hquiet r.state (.of_eq ?_) ?_ rfl
    · rw [hframe]
      rfl
    · rw [hframe]
      rfl
  | idle => exact hquiet s.cleared (.of_eq rfl) rfl rfl
  | image _ => exact hquiet _ (.emit rfl s.cleared) rfl rfl
  | form hdraws => exact absurd hdraws (h.noForm rfl _ _)

theorem stringsShown_cons (hok : (s.step (execute options) options t).fault = none)
    (h : LetsTextThrough options t s) (ts : List (Token K)) :
    stringsShown (t :: ts) s =
      stringsShown [t] s ++ stringsShown ts (s.step (execute options) options t).state := by
  have hsingle : calls [t] s = (s.call? t).toList := by
    cases t <;> rfl
  unfold stringsShown
  rw [calls_cons hok h.noForm ts, hsingle, List.flatMap_append]

end Step

theorem execute_strings (ts : List (Token K)) (s : Interpreter K)
    (hbrackets : textBracketed s.text.isOpen ts = true)
    (hclosed : s.text.isOpen = false → s.text.runs = #[])
    (hthrough : ∀ t u, Visits options ts s t u → LetsTextThrough options t u)
    (hok : (execute options ts s).fault = none) :
    let r := (execute options ts s).state
    r.strings = s.strings ++ stringsShown ts s ∧ (r.text.isOpen = false → r.text.runs = #[]) := by
  induction ts generalizing s with
  | nil =>
    rw [execute_nil]
    exact ⟨(List.append_nil _).symm, hclosed⟩
  | cons t ts ih =>
    obtain ⟨hstep, hrest⟩ := execute_cons_unfaulted hok
    have hhere : LetsTextThrough options t s := hthrough t s (.here t ts s)
    obtain ⟨hstands, hbrackets⟩ := Bool.and_eq_true_iff.1 hbrackets
    obtain ⟨hstrings, hclosed⟩ := step_strings hstands hclosed hhere
    have hopen := (performed (execute options) options t s).isOpen hhere.noForm
    rw [← hopen] at hbrackets
    rw [hrest] at hok
    obtain ⟨hall, hend⟩ :=
      ih _ hbrackets hclosed (fun t' v h => hthrough t' v (.next hstep h)) hok
    rw [hrest, stringsShown_cons hstep hhere]
    exact ⟨by rw [hall, hstrings, List.append_assoc], hend⟩

/-- Strings are neither lost nor doubled nor moved: the runs of the texts that an interpretation
draws hold, in order and byte for byte, the strings that its tokens show. The tokens open text
objects one after another and show strings inside them only. They draw no form, and no mask is in
force where an object is closed, by `ET` or at the end of the content with runs in it. -/
theorem finish_runs (options : Options K) {resources : Resources K} {s : Interpreter K}
    (hs : Starts options resources s) (ts : List (Token K)) (hbrackets : textBracketed false ts)
    (hforms : ∀ u, Visits options ts s (.operator "Do") u →
      ∀ name form, ¬ DrawsForm options u name form)
    (hmasks : ∀ u, Visits options ts s (.operator "ET") u → u.state.softMask = none)
    (hok : (execute options ts s).fault = none) :
    let r := (execute options ts s).state
    (r.text.runs ≠ #[] → r.state.softMask = none) →
      (r.finish.flatMap Element.runs).map TextRun.bytes = stringsShown ts s := by
  intro r hend
  have hstart : s.text.isOpen = false ∧ s.text.runs = #[] ∧ s.strings = [] := by
    cases hs with
    | page | group _ => exact ⟨rfl, rfl, rfl⟩
  have hthrough : ∀ t u, Visits options ts s t u → LetsTextThrough options t u := by
    intro t u hvisits
    refine ⟨?_, ?_⟩
    · rintro rfl
      exact hforms u hvisits
    · rintro rfl
      exact hmasks u hvisits
  rw [← hstart.1] at hbrackets
  obtain ⟨hstrings, hclosed⟩ :=
    execute_strings ts s hbrackets (fun _ => hstart.2.1) hthrough hok
  rw [hstart.2.2, List.nil_append] at hstrings
  -- Nothing is held any more after the end, so all that has been shown has been drawn.
  have hfinish : r.endOpenText.strings = r.strings ∧ r.endOpenText.text.runs = #[] := by
    unfold endOpenText
    by_cases hopen : r.text.isOpen = true
    · rw [if_pos hopen]
      exact ⟨endText_strings hend, endText_runs r⟩
    · rw [if_neg hopen]
      exact ⟨rfl, hclosed (Bool.not_eq_true _ ▸ hopen)⟩
  rw [← hstrings, ← hfinish.1]
  unfold strings
  rw [hfinish.2, List.append_nil]
  rfl

def maskTable : Resources ℚ :=
  let mask := SoftMaskGroup.squareGroup "0 0 1 2 re f"
  { Resources.empty with extGStates := [
      ("M", { ExtGState.empty with softMask := some (.group mask) }),
      ("N", { ExtGState.empty with softMask := some .none })] }

/-- A mask that is put in force and taken away between two strings, a state that is restored inside
a text object, operands of the wrong kinds, and an object that the content leaves open. -/
theorem finish_runs_openObject :
    let options : Options ℚ := { Options.standard with softMaskBudget := 2 }
    let ts : List (Token ℚ) := tokenize (Utf8.encode
      ("BT (a) Tj /M gs q [(b) 5 /n () [(no)]] TJ Q (no) 1 Tj /N gs ET " ++
        "ET BT 1 2 (c) \" 2 (no) \" (d) '"))
    let s := Interpreter.ofPage maskTable options
    let r := (execute options ts s).state
    (r.finish.flatMap Element.runs).map TextRun.bytes = stringsShown ts s ∧
      stringsShown ts s = ["a", "b", "", "c", "d"].map Utf8.encode ∧ r.finish.length = 2 := by
  intro options ts s r
  have hchecks : holdsAlong options
      (fun t u => decide (t ≠ .operator "ET") || u.state.softMask.isNone) ts s = true := by
    decide +kernel
  refine ⟨?_, by decide +kernel, by decide +kernel⟩
  refine finish_runs options .page ts (by decide +kernel) ?_ ?_ ?_ ?_
  · intro u hvisits
    exact absurd rfl (hvisits.holds hchecks).1
  · intro u hvisits
    simpa using (hvisits.holds hchecks).2
  · exact Option.isNone_iff_eq_none.1 (by decide +kernel)
  · intro _
    exact Option.isNone_iff_eq_none.1 (by decide +kernel)

end Interpreter
end ContentStream
