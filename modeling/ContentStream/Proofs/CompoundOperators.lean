import Mathlib
import ContentStream.Proofs.ConstantMask
import ContentStream.Proofs.NestedArrays
import ContentStream.Proofs.ScalarLaws
import ContentStream.Proofs.Signatures

set_option autoImplicit false

namespace ContentStream.Interpreter
variable {K : Type} [Scalar K] {options : Options K}

/-- The tokens that an operator stands for in a state, with the operands written before it. The
operators that close a path need one. -/
inductive Expands (s : Interpreter K) : String → List (Operand K) → List (Token K) → Prop
  | nextLine (h : Scalar.isFinite s.state.text.leading = true) :
      Expands s "T*" [] [.number 0, .number (-s.state.text.leading), .operator "Td"]
  | moveTextSetLeading {tx ty : K} (hx : Scalar.isFinite tx = true)
      (hy : Scalar.isFinite ty = true) :
      Expands s "TD" [.number tx, .number ty]
        [.number (-ty), .operator "TL", .number tx, .number ty, .operator "Td"]
  | nextLineShowText (bytes : List UInt8) :
      Expands s "'" [.string bytes] [.operator "T*", .string bytes, .operator "Tj"]
  | nextLineShowTextSpaced {aw ac : K} (hword : Scalar.isFinite aw = true)
      (hchar : Scalar.isFinite ac = true) (bytes : List UInt8) :
      Expands s "\"" [.number aw, .number ac, .string bytes]
        [.number aw, .operator "Tw", .number ac, .operator "Tc", .string bytes, .operator "'"]
  | fillObsolete : Expands s "F" [] [.operator "f"]
  | closeStroke (h : s.path.isEmpty = false) : Expands s "s" [] [.operator "h", .operator "S"]
  | closeFillStroke (h : s.path.isEmpty = false) :
      Expands s "b" [] [.operator "h", .operator "B"]
  | closeFillStrokeEvenOdd (h : s.path.isEmpty = false) :
      Expands s "b*" [] [.operator "h", .operator "B*"]

theorem paintPath_closed (options : Options K) (paint : Paint) (rule : FillRule)
    {s : Interpreter K} (h : s.path.isEmpty = false) :
    (s.addSegment .close).paintPath options paint rule false =
      s.paintPath options paint rule true := by
  have hpushed : (s.addSegment .close).path.isEmpty = false := by
    simp [addSegment]
  have hsegments : (s.addSegment .close).path.toList ++ [] = s.path.toList ++ [.close] := by
    simp [addSegment]
  rw [paintPath_nonempty hpushed, paintPath_nonempty h]
  exact congrArg (fun segments =>
    ({ s with path := #[] } : Interpreter K).drawPath options segments paint rule) hsegments

section Calls
variable {s : Interpreter K} (rest : List (Token K))

variable (hclosed : s.arrays = [])
include hclosed

theorem execute_number (op : Operator) (f : K → Interpreter K → Interpreter K) {name : String}
    (hname : Operator.ofName? name = some op) (hext : op ≠ .extGState) (hpaint : op ≠ .paintXObject)
    (hop : ∀ args (u : Interpreter K), u.apply options op args =
      (Operand.popNumber args).1.elim u fun v => f v u)
    {v : K} (hv : Scalar.isFinite v = true) :
    execute options (.number v :: .operator name :: rest) s =
      execute options rest (f v s.cleared) := by
  have happly : s.cleared.apply options op (.number v :: s.operands) = f v s.cleared := by
    rw [hop, Operand.popNumber_of_isFinite hv, Option.elim_some]
  rw [← happly]
  exact execute_call op hname hext hpaint [.number v] rest hclosed

theorem execute_moveText {x y : K} (hx : Scalar.isFinite x = true)
    (hy : Scalar.isFinite y = true) :
    execute options (.number x :: .number y :: .operator "Td" :: rest) s =
      execute options rest (s.cleared.moveLine ⟨x, y⟩) := by
  have happly : s.cleared.apply options .moveText (.number y :: .number x :: s.operands) =
      s.cleared.moveLine ⟨x, y⟩ := by
    simp only [apply, Operand.popNumbers_pair hx hy]
  rw [← happly]
  exact execute_call .moveText rfl (by decide) (by decide) [.number x, .number y] rest hclosed

theorem execute_showText (bytes : List UInt8) :
    execute options (.string bytes :: .operator "Tj" :: rest) s =
      execute options rest (s.cleared.showString bytes) :=
  execute_call .showText rfl (by decide) (by decide) [.string bytes] rest hclosed

theorem execute_nextLineShowText (bytes : List UInt8) :
    execute options (.string bytes :: .operator "'" :: rest) s =
      execute options rest (s.cleared.nextLine.showString bytes) :=
  execute_call .nextLineShowText rfl (by decide) (by decide) [.string bytes] rest hclosed

end Calls

/-- What the operators that close a path do, and what the others do after `h`. -/
theorem execute_closed {s u : Interpreter K} (op op' : Operator) {name name' : String}
    {paint : Paint} {rule : FillRule} (hname : Operator.ofName? name = some op)
    (hname' : Operator.ofName? name' = some op')
    (hop : ∀ args (u : Interpreter K),
      u.apply options op args = u.paintPath options paint rule true)
    (hop' : ∀ args (u : Interpreter K),
      u.apply options op' args = u.paintPath options paint rule false)
    (hext : op ≠ .extGState ∧ op' ≠ .extGState) (hpaint : op ≠ .paintXObject ∧ op' ≠ .paintXObject)
    (hpath : s.path.isEmpty = false) (hclosed : u.arrays = []) (hcleared : u.cleared = s.cleared)
    (rest : List (Token K)) :
    execute options (.operator name :: rest) (s.given []) =
      execute options (.operator "h" :: .operator name' :: rest) u := by
  calc
    _ = execute options rest (s.cleared.paintPath options paint rule true) := by
      rw [execute_given op hname hext.1 hpaint.1, hop]
    _ = execute options rest
        ((s.cleared.addSegment .close).paintPath options paint rule false) := by
      rw [paintPath_closed options paint rule (s := s.cleared) hpath]
    _ = execute options (.operator name' :: rest) (s.cleared.addSegment .close) := by
      rw [execute_operator hname' hext.2 hpaint.2, hop']
      rfl
    _ = _ := by
      rw [← hcleared]
      exact (execute_call .closePath rfl (by decide) (by decide) [] (.operator name' :: rest)
        hclosed).symm

/-- The tokens may be executed with any operands below, for none of their operators looks at
them. -/
theorem execute_given_expands [FiniteScalar K] {s u : Interpreter K} {name : String}
    {args : List (Operand K)} {ts : List (Token K)} (h : Expands s name args ts)
    (hclosed : u.arrays = []) (hcleared : u.cleared = s.cleared) (rest : List (Token K)) :
    execute options (.operator name :: rest) (s.given args) = execute options (ts ++ rest) u := by
  cases h with
  | nextLine hleading =>
    calc
      _ = execute options rest s.cleared.nextLine :=
        execute_given .nextLine rfl (by decide) (by decide) [] rest s
      _ = execute options rest (u.cleared.moveLine ⟨0, -s.state.text.leading⟩) := by
        rw [hcleared]
        rfl
      _ = _ := (execute_moveText rest hclosed FiniteScalar.isFinite_zero
        (FiniteScalar.isFinite_neg hleading)).symm
  | @moveTextSetLeading tx ty hx hy =>
    have hmove : s.cleared.apply options .moveTextSetLeading
        (.number ty :: .number tx :: s.operands) = s.cleared.moveLineSetLeading ⟨tx, ty⟩ := by
      simp only [apply, Operand.popNumbers_pair hx hy]
    calc
      _ = execute options rest (s.cleared.moveLineSetLeading ⟨tx, ty⟩) := by
        rw [← hmove]
        exact execute_given .moveTextSetLeading rfl (by decide) (by decide)
          [.number tx, .number ty] rest s
      _ = execute options (.number tx :: .number ty :: .operator "Td" :: rest)
          (u.cleared.setLeading (-ty)) := by
        rw [hcleared]
        exact (execute_moveText rest (s := s.cleared.setLeading (-ty)) rfl hx hy).symm
      _ = _ := (execute_number _ hclosed .leading setLeading rfl (by decide) (by decide)
        (fun _ _ => rfl) (FiniteScalar.isFinite_neg hy)).symm
  | nextLineShowText bytes =>
    calc
      _ = execute options rest (s.cleared.nextLine.showString bytes) :=
        execute_given .nextLineShowText rfl (by decide) (by decide) [.string bytes] rest s
      _ = execute options (.string bytes :: .operator "Tj" :: rest) u.cleared.nextLine := by
        rw [hcleared]
        exact (execute_showText rest (s := s.cleared.nextLine) rfl bytes).symm
      _ = _ := (execute_call .nextLine rfl (by decide) (by decide) [] _ hclosed).symm
  | @nextLineShowTextSpaced aw ac hword hchar bytes =>
    have hshow : s.cleared.apply options .nextLineShowTextSpaced
        (.string bytes :: .number ac :: .number aw :: s.operands) =
          ((s.cleared.setWordSpacing aw).setCharSpacing ac).nextLine.showString bytes := by
      simp only [apply, Operand.popString, Operand.popAs, Operand.popNumbers_pair hword hchar]
    calc
      _ = execute options rest
          (((s.cleared.setWordSpacing aw).setCharSpacing ac).nextLine.showString bytes) := by
        rw [← hshow]
        exact execute_given .nextLineShowTextSpaced rfl (by decide) (by decide)
          [.number aw, .number ac, .string bytes] rest s
      _ = execute options (.string bytes :: .operator "'" :: rest)
          ((s.cleared.setWordSpacing aw).setCharSpacing ac) :=
        (execute_nextLineShowText rest
          (s := (s.cleared.setWordSpacing aw).setCharSpacing ac) rfl bytes).symm
      _ = execute options (.number ac :: .operator "Tc" :: .string bytes :: .operator "'" :: rest)
          (u.cleared.setWordSpacing aw) := by
        rw [hcleared]
        exact (execute_number _ (s := s.cleared.setWordSpacing aw) rfl .charSpacing setCharSpacing
          rfl (by decide) (by decide) (fun _ _ => rfl) hchar).symm
      _ = _ := (execute_number _ hclosed .wordSpacing setWordSpacing rfl (by decide) (by decide)
        (fun _ _ => rfl) hword).symm
  | fillObsolete =>
    calc
      _ = execute options rest (u.cleared.apply options .fill u.operands) := by
        rw [hcleared]
        exact execute_given .fillObsolete rfl (by decide) (by decide) [] rest s
      _ = _ := (execute_call .fill rfl (by decide) (by decide) [] rest hclosed).symm
  | closeStroke hpath =>
    exact execute_closed .closeStroke .stroke rfl rfl (fun _ _ => rfl) (fun _ _ => rfl)
      (by decide) (by decide) hpath hclosed hcleared rest
  | closeFillStroke hpath =>
    exact execute_closed .closeFillStroke .fillStroke rfl rfl (fun _ _ => rfl) (fun _ _ => rfl)
      (by decide) (by decide) hpath hclosed hcleared rest
  | closeFillStrokeEvenOdd hpath =>
    exact execute_closed .closeFillStrokeEvenOdd .fillStrokeEvenOdd rfl rfl (fun _ _ => rfl)
      (fun _ _ => rfl) (by decide) (by decide) hpath hclosed hcleared rest

/-- An operator with its operands does what the tokens do that it stands for, whatever is executed
after it: the states, the elements drawn and any fault are the same. This is so for operands that
are there and for operands that are written. -/
theorem execute_expansion [FiniteScalar K] (options : Options K) (s : Interpreter K)
    {name : String} {args : List (Operand K)} {ts : List (Token K)} (h : Expands s name args ts)
    (rest : List (Token K)) :
    execute options (.operator name :: rest) (s.given args) =
      execute options (ts ++ rest) s.cleared ∧
    (s.arrays = [] → execute options (Operand.tokensOfItems args ++ .operator name :: rest) s =
      execute options (ts ++ rest) s) := by
  refine ⟨execute_given_expands (u := s.cleared) h rfl rfl rest, ?_⟩
  intro hclosed
  rw [execute_tokensOfItems hclosed]
  exact execute_given_expands h hclosed rfl rest

def shadedTable : Resources ℚ :=
  { Resources.empty with
    patterns := [("P", .shading .identity {
      kind := .axial 0 0 2 0
      colorSpace := .gray
      function := .sampled 0 1 [[0], [1]]
      domain := (0, 1)
      extend := (true, true)
      bbox := none })]
    extGStates := [("G", { ExtGState.empty with
      softMask := some (.group (SoftMaskGroup.squareGroup "0 0 1 2 re f")) })] }

/-- A triangle that is open under a clip, a mask and a pattern, and a string shown after it. -/
theorem execute_expansion_shaded :
    let options : Options ℚ :=
      { Options.standard with clipBudget := 2, softMaskBudget := 2, shadingBudget := 2 }
    let page := Interpreter.ofPage shadedTable options
    let content := "0 0 2 1 re W /G gs /Pattern cs /P scn 0 0 m 2 0 l 2 2 l"
    let s := (execute options (tokenize (Utf8.encode content)) page).state
    s.path.isEmpty = false ∧ s.arrays = [] ∧
    execute options [.operator "b*"] s = execute options [.operator "h", .operator "B*"] s ∧
    (execute options [.operator "b*"] s).state.elements.size = 2 ∧
    execute options [.number 1, .number 2, .string [97, 32], .operator "\""] s =
      execute options [.number 1, .operator "Tw", .number 2, .operator "Tc", .string [97, 32],
        .operator "'"] s := by
  intro options page content s
  have hpath : s.path.isEmpty = false := by decide +kernel
  have hclosed : s.arrays = [] := by decide +kernel
  refine ⟨hpath, hclosed, ?_, by decide +kernel, ?_⟩
  · exact (execute_expansion options s (.closeFillStrokeEvenOdd hpath) []).2 hclosed
  · exact (execute_expansion options s (.nextLineShowTextSpaced rfl rfl [97, 32]) []).2 hclosed

end ContentStream.Interpreter
