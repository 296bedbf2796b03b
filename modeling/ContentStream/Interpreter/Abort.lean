import ContentStream.Interpreter.Run
import ContentStream.Raster.Abort

set_option autoImplicit false

/-!
# Runs that abort

A run aborts with the first of its tokens that does, in nested content too. `execute?`, `interpret?`
and `interpretContent?` have a value for all other runs.
-/
namespace ContentStream
variable {K : Type} [Scalar K]

/-- Whether the group aborts after its content has been interpreted. -/
def SoftMaskGroup.evaluationAborts (options : Options K) (g : SoftMaskGroup K) (depth : Nat) :
    Bool :=
  let r := Interpreter.execute options (tokenize g.content) (.ofGroup g.resources depth)
  r.fault.isNone && g.valueAborts options r.state.finish

namespace Interpreter

def emitAborts (e : Element K) : Bool := isMasked e && e.maskingAborts

def patternAborts (options : Options K) (segments : List (Segment K)) (rule : FillRule)
    (state : GraphicsState K) (s : Interpreter K) : Bool :=
  match state.fillPattern.bind s.resources.pattern? with
  | some (.shading matrix shading) =>
    let region := (pathBounds segments state.ctm).intersect state.clipBBox
    shading.rasterizeAborts (matrix.compose s.baseCtm) region
      (some (flatten segments state.ctm, rule)) options.shadingBudget state
  | _ => false

def drawAborts (options : Options K) (segments : List (Segment K)) (paint : Paint)
    (rule : FillRule) (s : Interpreter K) : Bool :=
  let state := s.state
  let patterned := paint.fills && state.fillsWithPattern
  let pattern :=
    if patterned then s.rasterizePattern? options segments rule state else none
  patterned && s.patternAborts options segments rule state ||
    match pattern with
    | some _ =>
      paint == .fillStroke && emitAborts (.path ⟨segments, .stroke, none, state.clearFillPattern⟩)
    | none => emitAborts (.path ⟨segments, paint, if paint.fills then some rule else none, state⟩)

def paintAborts (options : Options K) (paint : Paint) (rule : FillRule) (close : Bool)
    (s : Interpreter K) : Bool :=
  let segments := s.path.toList ++ if close then [.close] else []
  !s.path.isEmpty && s.drawAborts options segments paint rule

def clipAborts (options : Options K) (s : Interpreter K) : Bool :=
  let bounds := pathBounds s.path.toList s.state.ctm
  !s.path.isEmpty && bounds.isFinite && !decide (bounds.x1 < bounds.x0) &&
    !decide (bounds.y1 < bounds.y0) && decide (0 < options.clipBudget) &&
    Mask.clipAborts (s.state.clipBBox.intersect bounds) options.clipBudget

def shadingAborts (options : Options K) (name : String) (s : Interpreter K) : Bool :=
  (s.resources.shading? name).any fun shading =>
    let state := s.state
    let region := match shading.bbox with
      | some bbox => state.clipBBox.intersect (state.ctm.applyRect bbox)
      | none => state.clipBBox
    shading.rasterizeAborts state.ctm region none options.shadingBudget state

/-- Whether an operator that interprets no nested content aborts. Texts have no outline to stroke,
so what closes a text object is not among them. -/
def applyAborts (options : Options K) (op : Operator) (args : Operand.Stack K)
    (s : Interpreter K) : Bool :=
  match op with
  | .stroke => s.paintAborts options .stroke .nonZero false
  | .closeStroke => s.paintAborts options .stroke .nonZero true
  | .fill | .fillObsolete => s.paintAborts options .fill .nonZero false
  | .fillEvenOdd => s.paintAborts options .fill .evenOdd false
  | .fillStroke => s.paintAborts options .fillStroke .nonZero false
  | .fillStrokeEvenOdd => s.paintAborts options .fillStroke .evenOdd false
  | .closeFillStroke => s.paintAborts options .fillStroke .nonZero true
  | .closeFillStrokeEvenOdd => s.paintAborts options .fillStroke .evenOdd true
  | .clip | .clipEvenOdd => s.clipAborts options
  | .strokeColorSpace | .fillColorSpace =>
    (Operand.popName args).1.any fun name => (s.resources.resolveColorSpace name).initialAborts
  | .paintShading => (Operand.popName args).1.any fun name => s.shadingAborts options name
  | _ => false

def maskGroup? (options : Options K) (s : Interpreter K) : Option (SoftMaskGroup K) :=
  if options.maxMaskDepth ≤ s.maskDepth then none
  else
    match (Operand.popName s.operands).1.bind s.resources.extGState? with
    | some { softMask := some (.group g), .. } => some g
    | _ => none

def drawnForm? (options : Options K) (s : Interpreter K) : Option (String × FormXObject K) :=
  (Operand.popName s.operands).1.bind fun name =>
    match s.resources.xObject? name with
    | some (.form form) =>
      if s.formStack.contains name || decide (options.maxFormDepth ≤ s.formStack.length) then none
      else some (name, form)
    | _ => none

/-- Whether a token aborts, where `inside` tells it of nested content. -/
def stepAborts (inside : List (Token K) → Interpreter K → Bool) (options : Options K)
    (t : Token K) (s : Interpreter K) : Bool :=
  let cleared := { s with operands := [], arrays := [] }
  match t with
  | .operator name =>
    match Operator.ofName? name with
    | none => false
    | some .extGState =>
      (s.maskGroup? options).any fun g =>
        inside (tokenize g.content) (ofGroup g.resources (s.maskDepth + 1)) ||
          g.evaluationAborts options (s.maskDepth + 1)
    | some .paintXObject =>
      (s.drawnForm? options).any fun (name, form) =>
        inside (tokenize form.content) (cleared.enterForm name form)
    | some op => cleared.applyAborts options op s.operands
  | _ => false

def abortsWith (inside : List (Token K) → Interpreter K → Bool) (options : Options K) :
    List (Token K) → Interpreter K → Bool
  | [], _ => false
  | t :: ts, s =>
    let r := s.step (execute options) options t
    s.stepAborts inside options t || r.fault.isNone && abortsWith inside options ts r.state

def abortsWithin (options : Options K) : Nat → List (Token K) → Interpreter K → Bool
  | 0 => abortsWith (fun _ _ => false) options
  | levels + 1 => abortsWith (abortsWithin options levels) options

def aborts (options : Options K) (ts : List (Token K)) (s : Interpreter K) : Bool :=
  abortsWithin options (s.nestingBound options) ts s

def execute? (options : Options K) (ts : List (Token K)) (s : Interpreter K) :
    Option (Outcome K) :=
  if aborts options ts s then none else some (execute options ts s)

end Interpreter

def SoftMaskGroup.evaluate? (options : Options K) (g : SoftMaskGroup K) (ctm : Transform K)
    (depth : Nat) : Option (Except (Fault K) (MaskValue K)) :=
  let inside := Interpreter.aborts options (tokenize g.content) (.ofGroup g.resources depth)
  if inside || g.evaluationAborts options depth then none else some (g.evaluate options ctm depth)

def interpret? (resources : Resources K) (options : Options K) (ts : List (Token K)) :
    Option (Except (Fault K) (List (Element K))) :=
  if Interpreter.aborts options ts (.ofPage resources options) then none
  else some (interpret resources options ts)

def interpretContent? (resources : Resources K) (options : Options K) (content : List UInt8) :
    Option (Except (Fault K) (List (Element K))) :=
  interpret? resources options (tokenize content)

end ContentStream
