import ContentStream.Interpreter.Paint
import ContentStream.Interpreter.Parameters
import ContentStream.Interpreter.Text
import ContentStream.Operator
import ContentStream.Token.Lexer

set_option autoImplicit false

/-!
# One token

What a single token does. The content of forms and of soft mask groups is interpreted in turn;
`Step` takes the interpretation of such nested content as an argument `run`.
-/
namespace ContentStream
variable {K : Type} [Scalar K]

/-- The state in which an interpretation ended, and the fault that ended it, if one did. -/
structure Outcome (K : Type) where
  state : Interpreter K
  fault : Option (Fault K)

def Outcome.ok (s : Interpreter K) : Outcome K := ⟨s, none⟩

abbrev Run (K : Type) := List (Token K) → Interpreter K → Outcome K

/-- The elements at the end of the content, with those of a text object that was left open. -/
def Interpreter.finish (s : Interpreter K) : List (Element K) := s.endOpenText.elements.toList

def SoftMaskGroup.evaluateWith (run : Run K) (options : Options K) (g : SoftMaskGroup K)
    (ctm : Transform K) (depth : Nat) : Except (Fault K) (MaskValue K) :=
  let r := run (tokenize g.content) (.ofGroup g.resources depth)
  match r.fault with
  | some fault => .error fault
  | none => g.valueOf ctm options r.state.finish

namespace Interpreter

/-- Puts a soft mask in force. Past the nesting limit, and where the mask cannot be resolved, there
is none. -/
def setSoftMask (run : Run K) (options : Options K) (g : SoftMaskGroup K) (s : Interpreter K) :
    Outcome K :=
  if options.maxMaskDepth ≤ s.maskDepth then .ok (s.modifyState .clearSoftMask)
  else
    match g.evaluateWith run options s.state.ctm (s.maskDepth + 1) with
    | .ok value => .ok (s.modifyState (.applyMaskValue value))
    | .error fault =>
      if fault.isFatal then ⟨s, some fault⟩ else .ok (s.modifyState .clearSoftMask)

def setExtGState (run : Run K) (options : Options K) (name : String) (s : Interpreter K) :
    Outcome K :=
  match s.resources.extGState? name with
  | none => .ok s
  | some e =>
    let s := s.modifyState (.applyExtGState e)
    match e.softMask with
    | none => .ok s
    | some .none => .ok (s.modifyState .clearSoftMask)
    | some (.group g) => s.setSoftMask run options g

/-- The interpreter inside a form: a saved state in the form's space and within its bounds, the
form's resources, no pending path and a fresh text object. -/
def enterForm (name : String) (form : FormXObject K) (s : Interpreter K) : Interpreter K :=
  let ctm := form.matrix.compose s.state.ctm
  { s with
    resources := form.resources.getD s.resources
    stack := s.stack.push.modify fun g =>
      { g with ctm, clipBBox := g.clipBBox.intersect (ctm.applyRect form.bbox) }
    path := #[]
    text := .initial
    formStack := name :: s.formStack }

def leaveForm (s inside : Interpreter K) : Interpreter K :=
  let inside := inside.endOpenText
  { inside with
    resources := s.resources
    stack := inside.stack.popTo s.stack.depth
    path := s.path
    text := s.text
    formStack := inside.formStack.tail }

/-- Draws a form, unless one of that name is being drawn or the nesting limit is reached. -/
def drawForm (run : Run K) (options : Options K) (name : String) (form : FormXObject K)
    (s : Interpreter K) : Outcome K :=
  if s.formStack.contains name || decide (options.maxFormDepth ≤ s.formStack.length) then .ok s
  else
    let r := run (tokenize form.content) (s.enterForm name form)
    { r with state := s.leaveForm r.state }

def withoutSlashes (name : String) : String :=
  String.ofList (name.toList.dropWhile (· == '/'))

def drawXObject (run : Run K) (options : Options K) (name : String) (s : Interpreter K) :
    Outcome K :=
  match s.resources.xObject? name with
  | none => .ok s
  | some (.image _) => .ok (s.emit (.image ⟨withoutSlashes name, s.state⟩))
  | some (.form form) => s.drawForm run options name form

/-- What an operator does that no nested content is interpreted for. Without operands of the right
kinds it does nothing. -/
def apply (options : Options K) (op : Operator) (args : Operand.Stack K) (s : Interpreter K) :
    Interpreter K :=
  let number := (Operand.popNumber args).1
  let int := (Operand.popInt args).1
  let name := (Operand.popName args).1
  let numbers := fun n => (Operand.popNumbers n args).1
  match op with
  | .save => { s with stack := s.stack.push }
  | .restore => { s with stack := s.stack.pop }
  | .concat =>
    match numbers 6 with
    | some [a, b, c, d, e, f] =>
      s.modifyState fun g => { g with ctm := (⟨a, b, c, d, e, f⟩ : Transform K).compose g.ctm }
    | _ => s
  | .lineWidth => number.elim s fun v => s.modifyState fun g => { g with lineWidth := v }
  | .lineCap => int.elim s fun v => s.modifyState fun g => { g with lineCap := .ofCode v }
  | .lineJoin => int.elim s fun v => s.modifyState fun g => { g with lineJoin := .ofCode v }
  | .miterLimit => number.elim s fun v => s.modifyState fun g => { g with miterLimit := v }
  | .dash =>
    match Operand.popNumber args with
    | (some phase, rest) =>
      (Operand.popNumberArray rest).1.elim s fun array =>
        s.modifyState fun g => { g with dashArray := array, dashPhase := phase }
    | (none, _) => s
  | .renderingIntent =>
    name.elim s fun v => s.modifyState fun g => { g with renderingIntent := some v }
  | .flatness => number.elim s fun v => s.modifyState fun g => { g with flatness := some v }
  | .moveTo =>
    match numbers 2 with
    | some [x, y] => s.addSegment (.moveTo ⟨x, y⟩)
    | _ => s
  | .lineTo =>
    match numbers 2 with
    | some [x, y] => s.addSegment (.lineTo ⟨x, y⟩)
    | _ => s
  | .curveTo =>
    match numbers 6 with
    | some [x1, y1, x2, y2, x3, y3] => s.addSegment (.curveTo ⟨x1, y1⟩ ⟨x2, y2⟩ ⟨x3, y3⟩)
    | _ => s
  | .curveToV =>
    match numbers 4 with
    | some [x2, y2, x3, y3] => s.addSegment (.curveToV ⟨x2, y2⟩ ⟨x3, y3⟩)
    | _ => s
  | .curveToY =>
    match numbers 4 with
    | some [x1, y1, x3, y3] => s.addSegment (.curveToY ⟨x1, y1⟩ ⟨x3, y3⟩)
    | _ => s
  | .closePath => s.addSegment .close
  | .rect =>
    match numbers 4 with
    | some [x, y, w, h] => s.addSegment (.rect x y w h)
    | _ => s
  | .stroke => s.paintPath options .stroke .nonZero false
  | .closeStroke => s.paintPath options .stroke .nonZero true
  | .fill | .fillObsolete => s.paintPath options .fill .nonZero false
  | .fillEvenOdd => s.paintPath options .fill .evenOdd false
  | .fillStroke => s.paintPath options .fillStroke .nonZero false
  | .fillStrokeEvenOdd => s.paintPath options .fillStroke .evenOdd false
  | .closeFillStroke => s.paintPath options .fillStroke .nonZero true
  | .closeFillStrokeEvenOdd => s.paintPath options .fillStroke .evenOdd true
  | .endPath => s.paintPath options .none .nonZero false
  | .clip => s.clipPath options .nonZero
  | .clipEvenOdd => s.clipPath options .evenOdd
  | .beginText => s.beginText
  | .endText => s.endText
  | .charSpacing => number.elim s fun v => s.setCharSpacing v
  | .wordSpacing => number.elim s fun v => s.setWordSpacing v
  | .horizontalScaling =>
    number.elim s fun v => s.modifyText fun t => { t with horizontalScaling := v }
  | .leading => number.elim s fun v => s.setLeading v
  | .font =>
    match Operand.popNumber args with
    | (some size, rest) => (Operand.popName rest).1.elim s fun name => s.selectFont name size
    | (none, _) => s
  | .renderMode => int.elim s fun v => s.modifyText fun t => { t with renderMode := v }
  | .rise => number.elim s fun v => s.modifyText fun t => { t with rise := v }
  | .moveText =>
    match numbers 2 with
    | some [x, y] => s.moveLine ⟨x, y⟩
    | _ => s
  | .moveTextSetLeading =>
    match numbers 2 with
    | some [x, y] => s.moveLineSetLeading ⟨x, y⟩
    | _ => s
  | .textMatrix =>
    match numbers 6 with
    | some [a, b, c, d, e, f] => { s with text := s.text.setMatrix ⟨a, b, c, d, e, f⟩ }
    | _ => s
  | .nextLine => s.nextLine
  | .showText => (Operand.popString args).1.elim s fun bytes => s.showString bytes
  | .showTextArray => (Operand.popArray args).1.elim s fun items => s.showArray items
  | .nextLineShowText =>
    (Operand.popString args).1.elim s fun bytes => s.nextLine.showString bytes
  | .nextLineShowTextSpaced =>
    match Operand.popString args with
    | (some bytes, rest) =>
      match (Operand.popNumbers 2 rest).1 with
      | some [word, char] =>
        ((s.setWordSpacing word).setCharSpacing char).nextLine.showString bytes
      | _ => s
    | (none, _) => s
  | .strokeGray => number.elim s fun v => s.modifyState (.setStrokeColor (.gray v))
  | .fillGray => number.elim s fun v => s.modifyState (.setFillColor (.gray v))
  | .strokeRgb =>
    match numbers 3 with
    | some [r, g, b] => s.modifyState (.setStrokeColor (.rgb r g b))
    | _ => s
  | .fillRgb =>
    match numbers 3 with
    | some [r, g, b] => s.modifyState (.setFillColor (.rgb r g b))
    | _ => s
  | .strokeCmyk =>
    match numbers 4 with
    | some [c, m, y, k] => s.modifyState (.setStrokeColor (.cmyk c m y k))
    | _ => s
  | .fillCmyk =>
    match numbers 4 with
    | some [c, m, y, k] => s.modifyState (.setFillColor (.cmyk c m y k))
    | _ => s
  | .strokeColorSpace => name.elim s fun v => s.selectStrokeSpace v
  | .fillColorSpace => name.elim s fun v => s.selectFillSpace v
  | .strokeColor | .strokeColorN => s.setStrokeComponents args
  | .fillColor | .fillColorN => s.setFillComponents args
  | .paintShading => name.elim s fun v => s.paintShading options v
  | .extGState | .paintXObject => s

def dispatch (run : Run K) (options : Options K) (op : Operator) (args : Operand.Stack K)
    (s : Interpreter K) : Outcome K :=
  match op with
  | .extGState => (Operand.popName args).1.elim (.ok s) fun name => s.setExtGState run options name
  | .paintXObject =>
    (Operand.popName args).1.elim (.ok s) fun name => s.drawXObject run options name
  | _ => .ok (s.apply options op args)

/-- Executes an operator by name. It takes all operands, whether it can use them or not, and
arrays that are still open are given up. Only a fatal fault remains. -/
def operate (run : Run K) (options : Options K) (name : String) (s : Interpreter K) :
    Outcome K :=
  let args := s.operands
  let s := { s with operands := [], arrays := [] }
  match Operator.ofName? name with
  | none => .ok s
  | some op =>
    let r := s.dispatch run options op args
    if r.fault.any Fault.isFatal then r else .ok { r.state with operands := [] }

def step (run : Run K) (options : Options K) (t : Token K) (s : Interpreter K) : Outcome K :=
  match t with
  | .number v => .ok (s.pushOperand (.number v))
  | .string bytes => .ok (s.pushOperand (.string bytes))
  | .name text => .ok (s.pushOperand (.name text))
  | .arrayStart => .ok s.openArray
  | .arrayEnd => .ok s.closeArray
  | .operator name => s.operate run options name

end Interpreter
end ContentStream
