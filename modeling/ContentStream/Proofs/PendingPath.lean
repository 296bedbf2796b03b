import Mathlib
import ContentStream.Proofs.Footprints
import ContentStream.Proofs.OperandScope
import ContentStream.Proofs.Visits

set_option autoImplicit false

namespace ContentStream
variable {K : Type}

namespace Operator

def paintsPath (op : Operator) : Bool :=
  op.category == .pathPainting && op != .clip && op != .clipEvenOdd

def closesPath : Operator → Bool
  | closeStroke | closeFillStroke | closeFillStrokeEvenOdd => true
  | _ => false

example : (table.filter fun entry => entry.2.paintsPath).map Prod.fst =
    ["S", "s", "f", "F", "f*", "B", "B*", "b", "b*", "n"] := by
  decide

theorem paintsPath_of_category {op : Operator} (h : op.category = .pathPainting)
    (hclip : op ≠ .clip) (hclip' : op ≠ .clipEvenOdd) : op.paintsPath = true := by
  simp [paintsPath, h, hclip, hclip']

end Operator

def Token.closesPath : Token K → Bool
  | .operator text => (Operator.ofName? text).any Operator.closesPath
  | _ => false

namespace Operand
variable [Scalar K]

def finite? : Operand K → Option K
  | number v => if Scalar.isFinite v then some v else none
  | _ => none

def lastFinite? (n : Nat) (args : Stack K) : Option (List K) :=
  if args.length < n then none else (args.take n).reverse.mapM finite?

theorem popNumber_cons (x : Operand K) (args : Stack K) :
    popNumber (x :: args) = (x.finite?, args) := by
  cases x <;> rfl

theorem takeNumbers_eq {n : Nat} {args : Stack K} (h : n ≤ args.length) (acc : List K) :
    (takeNumbers n acc args).1 = ((args.take n).reverse.mapM finite?).map (· ++ acc) := by
  induction n generalizing args acc with
  | zero => simp [takeNumbers]
  | succ n ih =>
    obtain ⟨x, args, rfl⟩ := List.exists_cons_of_length_pos (Nat.zero_lt_of_lt h)
    rw [takeNumbers, popNumber_cons, List.take_succ_cons, List.reverse_cons, List.mapM_append]
    cases hx : x.finite? with
    | none => simp [hx]
    | some v =>
      dsimp only
      rw [ih (Nat.le_of_succ_le_succ h)]
      cases (args.take n).reverse.mapM finite? <;> simp [hx]

theorem popNumbers_eq (n : Nat) (args : Stack K) : (popNumbers n args).1 = lastFinite? n args := by
  unfold popNumbers lastFinite?
  split
  · rfl
  · rw [takeNumbers_eq (Nat.not_lt.1 ‹_›)]
    simp

end Operand

section Scalar
variable [Scalar K]

namespace Operator

def operandCount : Operator → Nat
  | moveTo | lineTo => 2
  | curveTo => 6
  | curveToV | curveToY | rect => 4
  | _ => 0

def segmentOf? (op : Operator) (values : List K) : Option (Segment K) :=
  match op with
  | moveTo => match values with
    | [x, y] => some (.moveTo ⟨x, y⟩)
    | _ => none
  | lineTo => match values with
    | [x, y] => some (.lineTo ⟨x, y⟩)
    | _ => none
  | curveTo => match values with
    | [x1, y1, x2, y2, x3, y3] => some (.curveTo ⟨x1, y1⟩ ⟨x2, y2⟩ ⟨x3, y3⟩)
    | _ => none
  | curveToV => match values with
    | [x2, y2, x3, y3] => some (.curveToV ⟨x2, y2⟩ ⟨x3, y3⟩)
    | _ => none
  | curveToY => match values with
    | [x1, y1, x3, y3] => some (.curveToY ⟨x1, y1⟩ ⟨x3, y3⟩)
    | _ => none
  | rect => match values with
    | [x, y, w, h] => some (.rect x y w h)
    | _ => none
  | closePath => some .close
  | _ => none

/-- The segment that an operator names, if it has its full number of finite operands. -/
def segment? (args : Operand.Stack K) (op : Operator) : Option (Segment K) :=
  (Operand.lastFinite? op.operandCount args).bind op.segmentOf?

theorem segment?_of_category {op : Operator} (h : op.category ≠ .pathConstruction)
    (args : Operand.Stack K) : op.segment? args = none := by
  refine Option.bind_eq_none_iff.2 fun values _ => ?_
  cases op <;> first | rfl | exact absurd rfl h

end Operator

namespace Interpreter
variable {options : Options K}

theorem apply_construction {op : Operator} (h : op.category = .pathConstruction)
    (args : Operand.Stack K) (s : Interpreter K) :
    s.apply options op args = (op.segment? args).elim s fun x => s.addSegment x := by
  unfold Operator.segment?
  cases op <;> first | contradiction | skip
  case closePath => simp [apply, Operator.segmentOf?, Operator.operandCount, Operand.lastFinite?]
  all_goals
    simp only [apply, Operator.operandCount, Operand.popNumbers_eq]
    split
    · rename_i hoperands
      rw [hoperands]
      rfl
    · rename_i hother
      cases hoperands : Operand.lastFinite? _ args with
      | none => rfl
      | some values =>
        simp only [Option.bind_some, Operator.segmentOf?]
        split
        · exfalso
          apply hother
          exact hoperands
        · rfl

def named? (s : Interpreter K) : Token K → Option (Segment K)
  | .operator name => (Operator.ofName? name).bind (Operator.segment? s.operands)
  | _ => none

def segmentsNamed : List (Token K) → Interpreter K → List (Segment K)
  | [], _ => []
  | .operator name :: ts, s =>
    (s.named? (.operator name)).toList ++ segmentsNamed ts s.cleared
  | t :: ts, s => segmentsNamed ts (s.read t)

/-- The tokens of a run, each with the elements that it has added. -/
def drawsBy (options : Options K) : List (Token K) → Interpreter K →
    List (Token K × List (Element K))
  | [], _ => []
  | t :: ts, s =>
    let r := s.step (execute options) options t
    (t, r.state.elements.toList.drop s.elements.size) ::
      if r.fault.isSome then [] else drawsBy options ts r.state

/-- The segments of the paths that a token has added, without the one that it has closed them
with. -/
def segmentsDrawn (x : Token K × List (Element K)) : List (Segment K) :=
  x.2.flatMap fun e =>
    let segments := e.segments?.getD []
    if x.1.closesPath then segments.dropLast else segments

/-- The token neither clips with the pending path nor draws a form, and it finds no soft mask grid
and no pattern to fill with. -/
structure PaintsPlainly (options : Options K) (t : Token K) (s : Interpreter K) : Prop where
  unclipped : t ≠ .operator "W" ∧ t ≠ .operator "W*"
  noForm : t = .operator "Do" → ∀ name form, ¬ DrawsForm options s name form
  unmasked : s.state.softMask = none
  unpatterned : s.state.fillsWithPattern = false

structure PaintsPending (close : Bool) (u v : Interpreter K) : Prop where
  path : v.path = #[]
  empty : u.path = #[] → v.elements = u.elements
  pending : u.path ≠ #[] → ∃ e : PathElement K,
    e.segments = u.path.toList ++ (if close then [.close] else []) ∧
      v.elements = u.elements.push (.path e)

omit [Scalar K] in
theorem segmentsDrawn_nil (t : Token K) {es : List (Element K)}
    (h : ∀ e ∈ es, e.segments? = none) : segmentsDrawn (t, es) = [] := by
  refine List.flatMap_eq_nil_iff.2 ?_
  intro e he
  dsimp only
  rw [h e he]
  split <;> rfl

theorem drawPath_plain (options : Options K) {s : Interpreter K} (hmask : s.state.softMask = none)
    (hpattern : s.state.fillsWithPattern = false) (segments : List (Segment K)) (paint : Paint)
    (rule : FillRule) : ∃ e : PathElement K, e.segments = segments ∧
      s.drawPath options segments paint rule =
        { s with elements := s.elements.push (.path e) } := by
  let e : PathElement K := ⟨segments, paint, if paint.fills then some rule else none, s.state⟩
  have hdrawn : drawn (.path e) = .path e := drawn_of_unmasked hmask
  refine ⟨e, rfl, ?_⟩
  unfold drawPath
  dsimp only
  rw [hpattern, Bool.and_false, if_neg Bool.false_ne_true]
  dsimp only
  rw [emit_eq, hdrawn]

theorem apply_painting (options : Options K) {op : Operator} (h : op.paintsPath = true)
    (args : Operand.Stack K) (s : Interpreter K) : ∃ paint rule,
      s.apply options op args = s.paintPath options paint rule op.closesPath := by
  cases op <;> first | exact ⟨_, _, rfl⟩ | exact absurd h (by decide)

theorem apply_paintsPending {op : Operator} (h : op.paintsPath = true) {s : Interpreter K}
    (hmask : s.state.softMask = none) (hpattern : s.state.fillsWithPattern = false)
    (args : Operand.Stack K) : PaintsPending op.closesPath s (s.apply options op args) := by
  obtain ⟨paint, rule, happly⟩ := apply_painting options h args s
  rw [happly]
  cases hpath : s.path.isEmpty with
  | true =>
    rw [paintPath_empty hpath]
    have hempty : s.path = #[] := Array.isEmpty_iff.1 hpath
    exact ⟨hempty, fun _ => rfl, fun hne => absurd hempty hne⟩
  | false =>
    obtain ⟨e, he, hdraw⟩ := drawPath_plain options (s := { s with path := #[] }) hmask hpattern
      (s.path.toList ++ if op.closesPath then [Segment.close] else []) paint rule
    rw [paintPath_nonempty hpath, hdraw]
    refine ⟨rfl, fun hempty => ?_, fun _ => ⟨e, he, rfl⟩⟩
    rw [hempty] at hpath
    exact absurd hpath (by simp)

omit [Scalar K] in
theorem PaintsPending.segments {t : Token K} {u v : Interpreter K}
    (h : PaintsPending t.closesPath u v) : ∃ es, v.elements.toList = u.elements.toList ++ es ∧
      segmentsDrawn (t, es) ++ v.path.toList = u.path.toList := by
  rw [h.path]
  by_cases hempty : u.path = #[]
  · refine ⟨[], by rw [h.empty hempty, List.append_nil], ?_⟩
    rw [hempty]
    rfl
  · obtain ⟨e, hsegments, helements⟩ := h.pending hempty
    refine ⟨[.path e], by rw [helements, Array.toList_push], ?_⟩
    -- The segment that is taken away is the one that the operator has closed the path with.
    simp only [segmentsDrawn, Element.segments?, hsegments, List.flatMap_singleton,
      Option.getD_some, List.append_nil]
    cases t.closesPath with
    | true => exact List.dropLast_concat
    | false => exact List.append_nil _

section Step
variable {t : Token K} {s : Interpreter K}

theorem apply_segments {name : String} {op : Operator} (hop : Operator.ofName? name = some op)
    (h : PaintsPlainly options (.operator name) s) :
    let u := s.cleared.apply options op s.operands
    ∃ es, u.elements.toList = s.elements.toList ++ es ∧
      segmentsDrawn (.operator name, es) ++ u.path.toList =
        s.path.toList ++ (op.segment? s.operands).toList := by
  intro u
  -- Construction moves the named segment into the path, painting moves the path into an element, and
  -- nothing else touches either of them.
  by_cases hconstruction : op.category = .pathConstruction
  · have hu : u = (op.segment? s.operands).elim s.cleared fun x => s.cleared.addSegment x :=
      apply_construction hconstruction s.operands s.cleared
    rw [hu]
    cases op.segment? s.operands with
    | none => exact ⟨[], (List.append_nil _).symm, (List.append_nil _).symm⟩
    | some x => exact ⟨[], (List.append_nil _).symm, Array.toList_push⟩
  rw [Operator.segment?_of_category hconstruction]
  by_cases hpainting : op.category = .pathPainting
  · have hclip : op ≠ .clip := by
      rintro rfl
      exact h.unclipped.1 (congrArg _ (Operator.ofName?_inj hop rfl))
    have hclip' : op ≠ .clipEvenOdd := by
      rintro rfl
      exact h.unclipped.2 (congrArg _ (Operator.ofName?_inj hop rfl))
    have hcloses : (.operator name : Token K).closesPath = op.closesPath := by
      rw [Token.closesPath, hop]
      rfl
    have hpaints : PaintsPending op.closesPath s.cleared u :=
      apply_paintsPending (s := s.cleared) (Operator.paintsPath_of_category hpainting hclip hclip')
        h.unmasked h.unpatterned s.operands
    rw [← hcloses] at hpaints
    obtain ⟨es, helements, hsegments⟩ := hpaints.segments
    exact ⟨es, helements, hsegments.trans (List.append_nil _).symm⟩
  · have hfootprint := apply_footprint options op s.operands s.cleared
    obtain ⟨es, hes, helements⟩ := hfootprint.elements hpainting
    refine ⟨es, helements, ?_⟩
    rw [segmentsDrawn_nil _ hes, hfootprint.path hconstruction hpainting]
    exact (List.append_nil _).symm

/-- What a token adds to the paths drawn and to the pending path is what it names. -/
theorem step_segments (h : PaintsPlainly options t s) :
    let u := (s.step (execute options) options t).state
    ∃ es, u.elements.toList = s.elements.toList ++ es ∧
      segmentsDrawn (t, es) ++ u.path.toList = s.path.toList ++ (s.named? t).toList := by
  have hquiet : ∀ u : Interpreter K, s.AddsNoPath u → u.path = s.path → s.named? t = none →
      ∃ es, u.elements.toList = s.elements.toList ++ es ∧
        segmentsDrawn (t, es) ++ u.path.toList = s.path.toList ++ (s.named? t).toList := by
    rintro u ⟨es, hes, helements⟩ hpath hnone
    refine ⟨es, helements, ?_⟩
    rw [segmentsDrawn_nil t hes, hpath, hnone]
    exact (List.append_nil _).symm
  have hperformed := performed (execute options) options t s
  generalize s.step (execute options) options t = r at hperformed
  cases hperformed with
  | operand hoperand =>
    refine hquiet (s.read t) (.of_eq ?_) ?_ ?_
    · rw [read_frame]
    · rw [read_frame]
    · cases t with
      | operator name => exact absurd hoperand (by simp [Token.isOperator])
      | _ => rfl
  | unknown hop => exact hquiet s.cleared (.of_eq rfl) rfl (by rw [named?, hop]; rfl)
  | @apply name op hop hext hpaint =>
    have hnamed : s.named? (.operator name) = op.segment? s.operands := by
      rw [named?, hop]
      rfl
    rw [hnamed]
    exact apply_segments hop h
  | extGState _ hframe =>
    refine hquiet r.state (.of_eq ?_) ?_ rfl
    · rw [hframe]
      rfl
    · rw [hframe]
      rfl
  | idle => exact hquiet s.cleared (.of_eq rfl) rfl rfl
  | image _ => exact hquiet _ (.emit rfl s.cleared) rfl rfl
  | form hdraws => exact absurd hdraws (h.noForm rfl _ _)

end Step

theorem segmentsNamed_eq (ts : List (Token K)) (s : Interpreter K) :
    segmentsNamed ts s = (calls ts s).flatMap fun c =>
      ((Operator.ofName? c.1).bind (Operator.segment? c.2)).toList := by
  induction ts generalizing s with
  | nil => rfl
  | cons t ts ih =>
    cases t with
    | operator name => rw [segmentsNamed, calls, List.flatMap_cons, ih]; rfl
    | _ => exact ih _

theorem segmentsNamed_cons {t : Token K} {s : Interpreter K}
    (hok : (s.step (execute options) options t).fault = none)
    (hform : t = .operator "Do" → ∀ name form, ¬ DrawsForm options s name form)
    (ts : List (Token K)) : segmentsNamed (t :: ts) s = (s.named? t).toList ++
      segmentsNamed ts (s.step (execute options) options t).state := by
  rw [segmentsNamed_eq, segmentsNamed_eq, calls_cons hok hform, List.flatMap_append]
  congr 1
  cases t with
  | operator name => exact List.flatMap_singleton _ _
  | _ => rfl

theorem step_paintsPending {name : String} {op : Operator} (hop : Operator.ofName? name = some op)
    (hpaints : op.paintsPath = true) {u : Interpreter K}
    (h : PaintsPlainly options (.operator name) u) :
    PaintsPending op.closesPath u (u.step (execute options) options (.operator name)).state := by
  have hext : op ≠ .extGState := by
    rintro rfl
    exact absurd hpaints (by decide)
  have hpaint : op ≠ .paintXObject := by
    rintro rfl
    exact absurd hpaints (by decide)
  rw [step_apply (execute options) options hop hext hpaint]
  have hpending : PaintsPending op.closesPath u.cleared (u.cleared.apply options op u.operands) :=
    apply_paintsPending (s := u.cleared) hpaints h.unmasked h.unpatterned u.operands
  exact ⟨hpending.path, hpending.empty, hpending.pending⟩

theorem execute_conserves (ts : List (Token K)) (s : Interpreter K)
    (hplain : ∀ t u, Visits options ts s t u → PaintsPlainly options t u)
    (hok : (execute options ts s).fault = none) :
    let r := (execute options ts s).state
    r.elements.toList = s.elements.toList ++ (drawsBy options ts s).flatMap Prod.snd ∧
    (drawsBy options ts s).flatMap segmentsDrawn ++ r.path.toList =
      s.path.toList ++ segmentsNamed ts s := by
  induction ts generalizing s with
  | nil =>
    rw [execute_nil]
    exact ⟨(List.append_nil _).symm, (List.append_nil _).symm⟩
  | cons t ts ih =>
    obtain ⟨hstep, hrest⟩ := execute_cons_unfaulted hok
    have hhere : PaintsPlainly options t s := hplain t s (.here t ts s)
    obtain ⟨es, helements, hsegments⟩ := step_segments hhere
    rw [segmentsNamed_cons hstep hhere.noForm]
    let u := (s.step (execute options) options t).state
    have hadded : u.elements.toList.drop s.elements.size = es := by
      rw [helements]
      exact List.drop_left
    have hdraws : drawsBy options (t :: ts) s = (t, es) :: drawsBy options ts u := by
      rw [drawsBy, hstep, hadded]
      rfl
    rw [hrest] at hok
    obtain ⟨hall, hconserved⟩ := ih u (fun t' v h => hplain t' v (.next hstep h)) hok
    rw [hrest, hdraws, List.flatMap_cons, List.flatMap_cons]
    constructor
    · rw [hall, helements, List.append_assoc]
    · calc
        _ = segmentsDrawn (t, es) ++ ((drawsBy options ts u).flatMap segmentsDrawn ++
              (execute options ts u).state.path.toList) := List.append_assoc ..
        _ = segmentsDrawn (t, es) ++ (u.path.toList ++ segmentsNamed ts u) := by rw [hconserved]
        _ = s.path.toList ++ (s.named? t).toList ++ segmentsNamed ts u := by
          rw [← List.append_assoc, hsegments]
        _ = _ := List.append_assoc ..

/-- The elements of a run are those that its tokens have added. Segments are neither lost nor
doubled nor moved: those of the paths drawn, and after them the pending ones, are those that were
pending before and those that the tokens name, in their order. Each painting operator draws the
pending path, if there is one, as a single path, and leaves none. -/
theorem execute_segments (options : Options K) (ts : List (Token K)) (s : Interpreter K)
    (hplain : ∀ t u, Visits options ts s t u → PaintsPlainly options t u)
    (hok : (execute options ts s).fault = none) :
    let r := (execute options ts s).state
    r.elements.toList = s.elements.toList ++ (drawsBy options ts s).flatMap Prod.snd ∧
    (drawsBy options ts s).flatMap segmentsDrawn ++ r.path.toList =
      s.path.toList ++ segmentsNamed ts s ∧
    ∀ name op u, Operator.ofName? name = some op → op.paintsPath = true →
      Visits options ts s (.operator name) u →
        PaintsPending op.closesPath u
          (u.step (execute options) options (.operator name)).state := by
  obtain ⟨hall, hconserved⟩ := execute_conserves ts s hplain hok
  exact ⟨hall, hconserved, fun name op u hop hpaints h =>
    step_paintsPending hop hpaints (hplain _ u h)⟩

def paintsPlainly (t : Token K) (s : Interpreter K) : Bool :=
  let quiet := match t with
    | .operator name => decide (name ∉ ["W", "W*"])
    | _ => true
  quiet && s.state.softMask.isNone && !s.state.fillsWithPattern

theorem paintsPlainly_of_holds {ts : List (Token K)} {s u : Interpreter K} {t : Token K}
    (h : holdsAlong options paintsPlainly ts s = true) (hvisits : Visits options ts s t u) :
    PaintsPlainly options t u := by
  obtain ⟨hform, hcheck⟩ := hvisits.holds h
  simp only [paintsPlainly, Bool.and_eq_true, Option.isNone_iff_eq_none,
    Bool.not_eq_true'] at hcheck
  obtain ⟨⟨hquiet, hmask⟩, hpattern⟩ := hcheck
  refine ⟨⟨?_, ?_⟩, fun heq => absurd heq hform, hmask, hpattern⟩
  all_goals
    rintro rfl
    exact absurd hquiet (by simp)

/-- A line without enough operands, a stroked path that is closed twice, a rectangle that is filled
after a text object, an operator without a path, and a path that is still pending. -/
theorem execute_segments_pending :
    let ts : List (Token ℚ) :=
      tokenize (Utf8.encode "0 0 m 5 l (x) 4 4 l h s q 1 2 3 4 re foo BT ET Q f n 7 7 m")
    let s := Interpreter.ofPage .empty .standard
    let r := (execute .standard ts s).state
    (drawsBy .standard ts s).flatMap segmentsDrawn ++ r.path.toList = segmentsNamed ts s ∧
      segmentsNamed ts s = [.moveTo ⟨0, 0⟩, .lineTo ⟨4, 4⟩, .close, .rect 1 2 3 4, .moveTo ⟨7, 7⟩] ∧
      r.elements.size = 2 ∧ r.path = #[.moveTo ⟨7, 7⟩] := by
  intro ts s r
  have hholds : holdsAlong .standard paintsPlainly ts s = true := by decide +kernel
  have hok : (execute .standard ts s).fault = none :=
    Option.isNone_iff_eq_none.1 (by decide +kernel)
  obtain ⟨-, hconserved, -⟩ := execute_segments .standard ts s
    (fun t u => paintsPlainly_of_holds hholds) hok
  exact ⟨hconserved, by decide +kernel, by decide +kernel, by decide +kernel⟩

end Interpreter
end Scalar
end ContentStream
