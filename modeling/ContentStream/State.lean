import ContentStream.Color
import ContentStream.Mask

set_option autoImplicit false

namespace ContentStream
variable {K : Type} [Scalar K]

inductive LineCap
  | butt
  | round
  | projecting
  deriving DecidableEq

inductive LineJoin
  | miter
  | round
  | bevel
  deriving DecidableEq

/-- Unknown codes stand for the first style. -/
def LineCap.ofCode (code : Int) : LineCap :=
  if code = 1 then round else if code = 2 then projecting else butt

def LineJoin.ofCode (code : Int) : LineJoin :=
  if code = 1 then round else if code = 2 then bevel else miter

structure TextParams (K : Type) where
  charSpacing : K
  wordSpacing : K
  horizontalScaling : K
  leading : K
  renderMode : Int
  rise : K
  deriving DecidableEq

namespace TextParams

def initial : TextParams K where
  charSpacing := 0
  wordSpacing := 0
  horizontalScaling := ((100 : Nat) : K)
  leading := 0
  renderMode := 0
  rise := 0

def fills (t : TextParams K) : Bool :=
  t.renderMode == 0 || t.renderMode == 2 || t.renderMode == 4 || t.renderMode == 6

def strokesOnly (t : TextParams K) : Bool := t.renderMode == 1 || t.renderMode == 5

end TextParams

structure GraphicsState (K : Type) where
  ctm : Transform K
  fillColor : Color K
  strokeColor : Color K
  fillAlpha : K
  strokeAlpha : K
  lineWidth : K
  lineCap : LineCap
  lineJoin : LineJoin
  miterLimit : K
  dashArray : List K
  dashPhase : K
  renderingIntent : Option String
  flatness : Option K
  clipBBox : Rect K
  clipMask : Option (Mask K)
  /-- The value of a soft mask that is the same everywhere. -/
  softMaskAlpha : K
  softMask : Option (Mask K)
  blendMode : String
  fillPattern : Option String
  strokePattern : Option String
  text : TextParams K
  deriving DecidableEq

namespace GraphicsState

def initial : GraphicsState K where
  ctm := .identity
  fillColor := .gray 0
  strokeColor := .gray 0
  fillAlpha := 1
  strokeAlpha := 1
  lineWidth := 1
  lineCap := .butt
  lineJoin := .miter
  miterLimit := ((10 : Nat) : K)
  dashArray := []
  dashPhase := 0
  renderingIntent := none
  flatness := none
  clipBBox := .unbounded
  clipMask := none
  softMaskAlpha := 1
  softMask := none
  blendMode := "Normal"
  fillPattern := none
  strokePattern := none
  text := .initial

def fillsWithPattern (s : GraphicsState K) : Bool :=
  s.fillColor.space.isPattern && s.fillPattern.isSome

/-- Cuts a list to `n` entries or fills it up with zeros. -/
def resize (components : List K) (n : Nat) : List K :=
  components.take n ++ List.replicate (n - components.length) 0

/-- Drops the fill pattern; a pattern colour falls back to the underlying space. -/
def clearFillPattern (s : GraphicsState K) : GraphicsState K :=
  let fallBack := fun space : ColorSpace =>
    (⟨space, resize s.fillColor.components space.componentCount⟩ : Color K)
  let color := match s.fillColor.space with
    | .pattern => fallBack .gray
    | .patternOver space => fallBack space
    | _ => s.fillColor
  { s with fillPattern := none, fillColor := color }

def clearSoftMask (s : GraphicsState K) : GraphicsState K :=
  { s with softMask := none, softMaskAlpha := 1 }

def halfLineWidth (s : GraphicsState K) : K :=
  let width := s.lineWidth * Scalar.hypot s.ctm.a s.ctm.b
  if 0 < width then width / ((2 : Nat) : K) else 0.5

end GraphicsState

structure StateStack (K : Type) where
  saved : List (GraphicsState K)
  current : GraphicsState K
  deriving DecidableEq

namespace StateStack

def ofState (s : GraphicsState K) : StateStack K := ⟨[], s⟩

def push (s : StateStack K) : StateStack K := ⟨s.current :: s.saved, s.current⟩

def pop (s : StateStack K) : StateStack K :=
  match s.saved with
  | [] => s
  | t :: saved => ⟨saved, t⟩

def depth (s : StateStack K) : Nat := s.saved.length + 1

/-- Restores saved states as long as more than `depth` states are held. -/
def unwind (depth : Nat) : List (GraphicsState K) → GraphicsState K → StateStack K
  | [], current => ⟨[], current⟩
  | t :: saved, current =>
    if depth < saved.length + 2 then unwind depth saved t else ⟨t :: saved, current⟩

def popTo (depth : Nat) (s : StateStack K) : StateStack K := unwind depth s.saved s.current

def modify (f : GraphicsState K → GraphicsState K) (s : StateStack K) : StateStack K :=
  { s with current := f s.current }

end StateStack
end ContentStream
