import ContentStream.Operand
import ContentStream.Options
import ContentStream.Raster.Sampler

set_option autoImplicit false

namespace ContentStream
variable {K : Type} [Scalar K]

/-- The text object. The font belongs to it and not to the graphics state, so restoring a state
keeps the font. -/
structure TextObject (K : Type) where
  isOpen : Bool
  matrix : Transform K
  lineMatrix : Transform K
  fontName : String
  font : FontMetrics K
  fontSize : K
  /-- What has been shown since the object was opened. -/
  runs : Array (TextRun K)

namespace TextObject

def initial : TextObject K where
  isOpen := false
  matrix := .identity
  lineMatrix := .identity
  fontName := ""
  font := .fallback
  fontSize := 0
  runs := #[]

def opened (t : TextObject K) : TextObject K :=
  { t with isOpen := true, matrix := .identity, lineMatrix := .identity, runs := #[] }

end TextObject

structure Interpreter (K : Type) where
  /-- The resources in force, which change while a form is drawn. -/
  resources : Resources K
  stack : StateStack K
  operands : Operand.Stack K
  /-- The arrays that are open, innermost first, each with its last item first. -/
  arrays : List (List (Operand K))
  path : Array (Segment K)
  text : TextObject K
  elements : Array (Element K)
  /-- How many soft mask groups this run is nested in. -/
  maskDepth : Nat
  /-- The names of the forms that are being drawn, innermost first. -/
  formStack : List String
  /-- The transform of the base state, which pattern space is relative to. -/
  baseCtm : Transform K

namespace Interpreter

def ofBaseState (resources : Resources K) (base : GraphicsState K) (maskDepth : Nat) :
    Interpreter K where
  resources
  stack := .ofState base
  operands := []
  arrays := []
  path := #[]
  text := .initial
  elements := #[]
  maskDepth
  formStack := []
  baseCtm := base.ctm

def ofPage (resources : Resources K) (options : Options K) : Interpreter K :=
  ofBaseState resources
    { GraphicsState.initial with
      ctm := options.initialCtm
      clipBBox := options.pageBBox.getD .unbounded }
    0

/-- An interpreter for the content of a soft mask group, which runs in a space of its own. -/
def ofGroup (resources : Resources K) (maskDepth : Nat) : Interpreter K :=
  ofBaseState resources .initial maskDepth

def state (s : Interpreter K) : GraphicsState K := s.stack.current

def modifyState (f : GraphicsState K → GraphicsState K) (s : Interpreter K) : Interpreter K :=
  { s with stack := s.stack.modify f }

def modifyText (f : TextParams K → TextParams K) (s : Interpreter K) : Interpreter K :=
  s.modifyState fun g => { g with text := f g.text }

/-- Adds an operand to the innermost open array, or else to the stack. -/
def pushOperand (x : Operand K) (s : Interpreter K) : Interpreter K :=
  match s.arrays with
  | items :: arrays => { s with arrays := (x :: items) :: arrays }
  | [] => { s with operands := x :: s.operands }

def openArray (s : Interpreter K) : Interpreter K := { s with arrays := [] :: s.arrays }

def closeArray (s : Interpreter K) : Interpreter K :=
  match s.arrays with
  | items :: arrays => { s with arrays }.pushOperand (.array items.reverse)
  | [] => s

def isMasked : Element K → Bool
  | .path e => e.state.softMask.isSome && e.paint != .none
  | .text e => e.state.softMask.isSome
  | _ => false

/-- Adds an element to those drawn. Masked paths and texts are drawn as pixels. -/
def emit (e : Element K) (s : Interpreter K) : Interpreter K :=
  let drawn := if isMasked e then (e.rasterizeMasked?.map Element.raster).getD e else e
  { s with elements := s.elements.push drawn }

end Interpreter
end ContentStream
