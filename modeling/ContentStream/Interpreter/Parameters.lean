import ContentStream.Interpreter
import ContentStream.Raster.Composite

set_option autoImplicit false

namespace ContentStream
variable {K : Type} [Scalar K]

namespace GraphicsState

def setFillColor (c : Color K) (g : GraphicsState K) : GraphicsState K :=
  { g with fillColor := c, fillPattern := none }

def setStrokeColor (c : Color K) (g : GraphicsState K) : GraphicsState K :=
  { g with strokeColor := c, strokePattern := none }

def applyExtGState (e : ExtGState K) (g : GraphicsState K) : GraphicsState K :=
  { g with
    lineWidth := e.lineWidth.getD g.lineWidth
    lineCap := (e.lineCap.map LineCap.ofCode).getD g.lineCap
    lineJoin := (e.lineJoin.map LineJoin.ofCode).getD g.lineJoin
    miterLimit := e.miterLimit.getD g.miterLimit
    dashArray := (e.dash.map Prod.fst).getD g.dashArray
    dashPhase := (e.dash.map Prod.snd).getD g.dashPhase
    strokeAlpha := (e.strokeAlpha.map fun a => Scalar.clamp a 0 1).getD g.strokeAlpha
    fillAlpha := (e.fillAlpha.map fun a => Scalar.clamp a 0 1).getD g.fillAlpha
    blendMode := e.blendMode.getD g.blendMode }

def applyMaskValue (v : MaskValue K) (g : GraphicsState K) : GraphicsState K :=
  match v with
  | .constant alpha => { g with softMask := none, softMaskAlpha := alpha }
  | .grid mask => { g with softMask := some mask, softMaskAlpha := 1 }

end GraphicsState

/-- A colour and a pattern after components have been given for them. In a pattern space those
are the components of the underlying colour and the name of the pattern. Elsewhere a count that
does not fit the space selects the device space with that many components. -/
def Color.withComponents (c : Color K) (pattern : Option String) (args : Operand.Stack K) :
    Color K × Option String :=
  if c.space.isPattern then
    match Operand.popName args with
    | (some name, rest) => ({ c with components := (Operand.drainNumbers rest).1 }, some name)
    | (none, _) => (c, pattern)
  else
    let values := (Operand.drainNumbers args).1
    if values.isEmpty then (c, pattern)
    else if values.length = c.space.componentCount then ({ c with components := values }, pattern)
    else
      match ColorSpace.ofComponentCount? values.length with
      | some space => (⟨space, values⟩, pattern)
      | none => (c, pattern)

namespace Interpreter

def setFillComponents (args : Operand.Stack K) : Interpreter K → Interpreter K :=
  modifyState fun g =>
    let (color, pattern) := g.fillColor.withComponents g.fillPattern args
    { g with fillColor := color, fillPattern := pattern }

def setStrokeComponents (args : Operand.Stack K) : Interpreter K → Interpreter K :=
  modifyState fun g =>
    let (color, pattern) := g.strokeColor.withComponents g.strokePattern args
    { g with strokeColor := color, strokePattern := pattern }

def selectFillSpace (name : String) (s : Interpreter K) : Interpreter K :=
  s.modifyState (.setFillColor (.initial (s.resources.resolveColorSpace name)))

def selectStrokeSpace (name : String) (s : Interpreter K) : Interpreter K :=
  s.modifyState (.setStrokeColor (.initial (s.resources.resolveColorSpace name)))

end Interpreter
end ContentStream
