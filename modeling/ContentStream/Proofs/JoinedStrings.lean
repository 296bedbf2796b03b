import Mathlib
import ContentStream.Proofs.NestedArrays
import ContentStream.Proofs.Transforms

set_option autoImplicit false

namespace ContentStream
variable {K : Type}

section Codes

namespace FontMetrics

theorem pairCodes_append : ∀ {x : List UInt8}, Even x.length → ∀ y : List UInt8,
    pairCodes (x ++ y) = pairCodes x ++ pairCodes y
  | [], _, _ => rfl
  | [_], h, _ => absurd h (by simp)
  | hi :: lo :: x, h, y => by
    have hx : Even x.length := by
      rw [List.length_cons, List.length_cons, add_assoc, Nat.even_add] at h
      exact h.2 even_two
    exact congrArg (List.cons (hi.toNat * 256 + lo.toNat)) (pairCodes_append hx y)

/-- Only a font of pairs asks where a string is cut. -/
theorem charCodes_append (f : FontMetrics K) {x : List UInt8}
    (h : f.isMultibyte = true → Even x.length) (y : List UInt8) :
    f.charCodes (x ++ y) = f.charCodes x ++ f.charCodes y := by
  unfold charCodes
  split
  · exact pairCodes_append (h ‹_›) y
  · exact List.map_append

end FontMetrics

theorem textOfCodes_append (cs ds : List Nat) :
    textOfCodes (cs ++ ds) = textOfCodes cs ++ textOfCodes ds := by
  simp [textOfCodes]

end Codes

/-- The runs of two strings and that of both together: the second run continues the first one at a
common edge, in the same font and layout. -/
structure TextRun.Joins (first second whole : TextRun K) : Prop where
  text : whole.text = first.text ++ second.text
  bytes : whole.bytes = first.bytes ++ second.bytes
  start : first.start = whole.start
  meet : second.start = first.finish
  finish : second.finish = whole.finish
  outline : ∃ lowerLeft lower lowerRight upperRight upper upperLeft,
    first.outline = [lowerLeft, lower, upper, upperLeft] ∧
    second.outline = [lower, lowerRight, upperRight, upper] ∧
    whole.outline = [lowerLeft, lowerRight, upperRight, upperLeft]
  layout : first = { whole with
      text := first.text, bytes := first.bytes, finish := first.finish,
      outline := first.outline } ∧
    second = { whole with
      text := second.text, bytes := second.bytes, start := second.start,
      outline := second.outline }

namespace Transform
variable [ExactField K]

theorem shift_shift (m : Transform K) (a b : K) : (m.shift a).shift b = m.shift (a + b) := by
  simp only [shift, add_assoc]

theorem shift_zero (m : Transform K) : m.shift 0 = m := by
  simp only [shift, add_zero]

end Transform

namespace TextObject

section Movement
variable [Scalar K]

def itemAdvance (t : TextObject K) (params : TextParams K) : Operand K → K
  | .string bytes => t.advance params (t.font.charCodes bytes)
  | .number adjustment => -adjustment / ((1000 : Nat) : K) * t.fontSize *
      (params.horizontalScaling / ((100 : Nat) : K))
  | _ => 0

structure MovesAlong (t u : TextObject K) : Prop where
  line : u.lineMatrix = t.lineMatrix
  matrix : ∃ dx, u.matrix = t.matrix.shift dx

theorem showItem_frame (t : TextObject K) (g : GraphicsState K) (item : Operand K) :
    t.showItem g item =
      { t with matrix := (t.showItem g item).matrix, runs := (t.showItem g item).runs } := by
  cases item <;> rfl

theorem itemAdvance_showItem (t : TextObject K) (g : GraphicsState K) (item : Operand K) :
    (t.showItem g item).itemAdvance = t.itemAdvance := by
  rw [showItem_frame]
  funext params item'
  cases item' <;> rfl

end Movement

variable [ExactField K]

theorem advance_eq_sum (t : TextObject K) (params : TextParams K) (codes : List Nat) :
    t.advance params codes = (codes.map (t.glyphAdvance params)).sum := by
  have hfold : ∀ start : K, codes.foldl (fun sum code => sum + t.glyphAdvance params code) start =
      start + (codes.map (t.glyphAdvance params)).sum := by
    induction codes with
    | nil => exact fun start => (add_zero start).symm
    | cons code codes ih =>
      intro start
      rw [List.foldl_cons, ih, List.map_cons, List.sum_cons, add_assoc]
  unfold advance
  rw [hfold, neg_zero, zero_add]

theorem advance_append (t : TextObject K) (params : TextParams K) (cs ds : List Nat) :
    t.advance params (cs ++ ds) = t.advance params cs + t.advance params ds := by
  simp only [advance_eq_sum, List.map_append, List.sum_append]

section Parts
variable (t : TextObject K) (g : GraphicsState K) {x : List UInt8}
  (h : t.font.isMultibyte = true → Even x.length) (y : List UInt8)
include h

theorem showString_append_matrix :
    ((t.showString g x).showString g y).matrix = (t.showString g (x ++ y)).matrix := by
  change (t.matrix.shift _).shift (t.advance g.text (t.font.charCodes y)) =
    t.matrix.shift (t.advance g.text (t.font.charCodes (x ++ y)))
  rw [Transform.shift_shift, t.font.charCodes_append h, advance_append]

theorem runOf_joins :
    (t.runOf g x).Joins ((t.showString g x).runOf g y) (t.runOf g (x ++ y)) := by
  have hend : (t.showString g x).matrix.shift
      ((t.showString g x).advance g.text ((t.showString g x).font.charCodes y)) =
        t.matrix.shift (t.advance g.text (t.font.charCodes (x ++ y))) :=
    showString_append_matrix t g h y
  have hsecond : (t.showString g x).runOf g y =
      { (t.showString g x).runOf g y with
        finish := (t.runOf g (x ++ y)).finish
        outline := ((t.showString g x).runOf g y).outline } := by
    simp only [runOf, hend]
  constructor
  case text =>
    change textOfCodes (t.font.charCodes (x ++ y)) = _
    rw [t.font.charCodes_append h, textOfCodes_append]
    rfl
  case bytes => rfl
  case start => rfl
  case meet => rfl
  case finish => simp only [runOf, hend]
  case outline =>
    refine ⟨_, _, _, _, _, _, rfl, ?_, rfl⟩
    simp only [runOf, hend]
    rfl
  case layout => exact ⟨rfl, hsecond⟩

end Parts

theorem showItem_matrix (t : TextObject K) (g : GraphicsState K) (item : Operand K) :
    (t.showItem g item).matrix = t.matrix.shift (t.itemAdvance g.text item) := by
  cases item with
  | string | number => rfl
  | name | array => exact t.matrix.shift_zero.symm

theorem showItems_matrix (g : GraphicsState K) (items : List (Operand K)) (t : TextObject K) :
    (items.foldl (fun t item => t.showItem g item) t).matrix =
      t.matrix.shift (items.map (t.itemAdvance g.text)).sum := by
  induction items generalizing t with
  | nil => exact t.matrix.shift_zero.symm
  | cons item items ih =>
    rw [List.foldl_cons, ih, itemAdvance_showItem, showItem_matrix, Transform.shift_shift,
      List.map_cons, List.sum_cons]

theorem showItems_lineMatrix (g : GraphicsState K) (items : List (Operand K))
    (t : TextObject K) :
    (items.foldl (fun t item => t.showItem g item) t).lineMatrix = t.lineMatrix := by
  induction items generalizing t with
  | nil => rfl
  | cons item items ih =>
    rw [List.foldl_cons, ih, showItem_frame]

theorem MovesAlong.refl (t : TextObject K) : t.MovesAlong t := ⟨rfl, 0, t.matrix.shift_zero.symm⟩

end TextObject

namespace Interpreter
variable [ExactField K] {options : Options K}

theorem apply_showText_movesAlong (args : Operand.Stack K) (s : Interpreter K) :
    s.text.MovesAlong (s.apply options .showText args).text := by
  change s.text.MovesAlong ((Operand.popString args).1.elim s fun bytes => s.showString bytes).text
  cases (Operand.popString args).1 with
  | none => exact .refl s.text
  | some bytes => exact ⟨rfl, _, rfl⟩

theorem apply_showTextArray_movesAlong (args : Operand.Stack K) (s : Interpreter K) :
    s.text.MovesAlong (s.apply options .showTextArray args).text := by
  change s.text.MovesAlong ((Operand.popArray args).1.elim s fun items => s.showArray items).text
  cases (Operand.popArray args).1 with
  | none => exact .refl s.text
  | some items =>
    exact ⟨TextObject.showItems_lineMatrix s.state items s.text, _,
      TextObject.showItems_matrix s.state items s.text⟩

/-- A string that is shown in two parts leaves the text matrix where the whole string leaves it,
and its runs are the two parts of the run of the whole, unless a pair of bytes is torn apart. All
else is the same. Showing text, strings between any adjustments too, changes nothing of the line,
and of the text matrix only how far along the line it stands; arrays move it by the sum over their
items. -/
theorem execute_showText_append (options : Options K) (s : Interpreter K) {x : List UInt8}
    (h : s.text.font.isMultibyte = true → Even x.length) (y : List UInt8) :
    (∃ part parts whole : Interpreter K,
      execute options [.operator "Tj"] (s.given [.string x]) = .ok part ∧
      execute options [.operator "Tj"] (part.given [.string y]) = .ok parts ∧
      execute options [.operator "Tj"] (s.given [.string (x ++ y)]) = .ok whole ∧
      parts.text.matrix = whole.text.matrix ∧
      parts = { whole with text := { whole.text with runs := parts.text.runs } } ∧
      ∃ first second joined : TextRun K,
        parts.text.runs = (s.text.runs.push first).push second ∧
        whole.text.runs = s.text.runs.push joined ∧ first.Joins second joined) ∧
    (∀ name ∈ ["Tj", "TJ"], ∃ u : Interpreter K,
      execute options [.operator name] s = .ok u ∧ s.text.MovesAlong u.text) ∧
    ∀ items : List (Operand K), ∃ u : Interpreter K,
      execute options [.operator "TJ"] (s.given [.array items]) = .ok u ∧
      u.text.matrix =
        s.text.matrix.shift (items.map (s.text.itemAdvance s.state.text)).sum := by
  have hshow (u : Interpreter K) : execute options [.operator "Tj"] u =
      .ok (u.cleared.apply options .showText u.operands) :=
    execute_apply .showText rfl (by decide) (by decide) u
  have harray (u : Interpreter K) : execute options [.operator "TJ"] u =
      .ok (u.cleared.apply options .showTextArray u.operands) :=
    execute_apply .showTextArray rfl (by decide) (by decide) u
  refine ⟨?_, ?_, ?_⟩
  · have hmatrix : ((s.text.showString s.state x).showString s.state y).matrix =
        (s.text.showString s.state (x ++ y)).matrix :=
      s.text.showString_append_matrix s.state h y
    refine ⟨s.cleared.showString x, (s.cleared.showString x).showString y,
      s.cleared.showString (x ++ y), hshow _, hshow _, hshow _, hmatrix, ?_, ?_⟩
    · exact congrArg (fun m => ({ s.cleared with text :=
        { (s.text.showString s.state x).showString s.state y with matrix := m } } :
          Interpreter K)) hmatrix
    · exact ⟨_, _, _, rfl, rfl, s.text.runOf_joins s.state h y⟩
  · intro name hname
    rcases List.mem_pair.1 hname with rfl | rfl
    · exact ⟨_, hshow s, apply_showText_movesAlong _ s.cleared⟩
    · exact ⟨_, harray s, apply_showTextArray_movesAlong _ s.cleared⟩
  · intro items
    exact ⟨_, harray _, TextObject.showItems_matrix s.state items s.text⟩

def pairedTable : Resources ℚ :=
  { Resources.empty with
    fonts := [("F", {
      baseFont := "Paired"
      widths := [(65, 600), (1, 250)]
      defaultWidth := 1000
      ascent := 800
      descent := -200
      codeBytes := 2 })] }

/-- A letter and a space, and then a byte that is left over, under spacing and scaling. -/
theorem execute_showText_append_pairs :
    let content := "BT /F 10 Tf 2 Tc 3 Tw 50 Tz 1 Ts 1 2 0 1 5 7 Tm"
    let page := Interpreter.ofPage pairedTable .standard
    let s := (execute .standard (tokenize (Utf8.encode content)) page).state
    let x : List UInt8 := [0, 65, 0, 1]
    let y : List UInt8 := [66]
    let part := (execute .standard [.operator "Tj"] (s.given [.string x])).state
    s.text.font.isMultibyte = true ∧ Even x.length ∧
    (execute .standard [.operator "Tj"] (s.given [.string (x ++ y)])).state.text.matrix =
      ⟨1, 2, 0, 1, 75/4, 7⟩ ∧
    (execute .standard [.operator "Tj"] (part.given [.string y])).state.text.matrix =
      ⟨1, 2, 0, 1, 75/4, 7⟩ ∧
    (execute .standard [.operator "Tj"] s).fault = none := by
  intro content page s x y part
  have hwhole : (execute .standard [.operator "Tj"]
      (s.given [.string (x ++ y)])).state.text.matrix = ⟨1, 2, 0, 1, 75/4, 7⟩ := by
    decide +kernel
  have heven : Even x.length := by decide
  obtain ⟨⟨part', parts, whole, hpart, hparts, hjoined, hmatrix, -⟩, hmoves, -⟩ :=
    execute_showText_append .standard s (fun _ => heven) y
  obtain ⟨u, hu, -⟩ := hmoves "Tj" List.mem_cons_self
  refine ⟨by decide +kernel, heven, hwhole, ?_, by rw [hu]; rfl⟩
  have hstart : part = part' := congrArg Outcome.state hpart
  rw [hstart, hparts]
  rw [hjoined] at hwhole
  exact hmatrix.trans hwhole

end Interpreter
end ContentStream
