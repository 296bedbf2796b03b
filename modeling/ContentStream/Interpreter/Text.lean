import ContentStream.Interpreter
import ContentStream.Text.Utf8

set_option autoImplicit false

namespace ContentStream
variable {K : Type} [Scalar K]

def textOfCodes (codes : List Nat) : String :=
  String.ofList (codes.map fun c => if c.isValidChar then Char.ofNat c else Utf8.replacement)

namespace TextObject

/-- How far a glyph moves the text matrix. The code of the space also takes word spacing. -/
def glyphAdvance (t : TextObject K) (params : TextParams K) (code : Nat) : K :=
  let isSpace := code == 32 || t.font.isMultibyte && code == 1
  let word := if isSpace then params.wordSpacing else 0
  let thousand := ((1000 : Nat) : K)
  (t.font.width code / thousand * t.fontSize + params.charSpacing + word) *
    (params.horizontalScaling / ((100 : Nat) : K))

/-- How far a string moves the text matrix. No glyphs at all give a negative zero, which leaves
every sum as it is. -/
def advance (t : TextObject K) (params : TextParams K) (codes : List Nat) : K :=
  codes.foldl (fun sum code => sum + t.glyphAdvance params code) (-0)

def runOf (t : TextObject K) (state : GraphicsState K) (bytes : List UInt8) : TextRun K :=
  let params := state.text
  let codes := t.font.charCodes bytes
  let endMatrix := t.matrix.shift (t.advance params codes)
  let toPage := fun (m : Transform K) (y : K) => state.ctm.apply (m.apply ⟨0, y⟩)
  let thousand := ((1000 : Nat) : K)
  let descent := params.rise + t.font.descent / thousand * t.fontSize
  let ascent := params.rise + t.font.ascent / thousand * t.fontSize
  let rendering := t.matrix.compose state.ctm
  { text := textOfCodes codes
    bytes
    start := toPage t.matrix params.rise
    finish := toPage endMatrix params.rise
    fontName := t.fontName
    baseFont := t.font.baseFont
    fontSize := t.fontSize
    effectiveFontSize := t.fontSize * Scalar.hypot rendering.c rendering.d
    charSpacing := params.charSpacing
    wordSpacing := params.wordSpacing
    horizontalScaling := params.horizontalScaling
    rise := params.rise
    outline := [toPage t.matrix descent, toPage endMatrix descent, toPage endMatrix ascent,
      toPage t.matrix ascent] }

def showString (t : TextObject K) (state : GraphicsState K) (bytes : List UInt8) :
    TextObject K :=
  { t with
    runs := t.runs.push (t.runOf state bytes)
    matrix := t.matrix.shift (t.advance state.text (t.font.charCodes bytes)) }

def adjust (t : TextObject K) (params : TextParams K) (adjustment : K) : TextObject K :=
  { t with
    matrix := t.matrix.shift (-adjustment / ((1000 : Nat) : K) * t.fontSize *
      (params.horizontalScaling / ((100 : Nat) : K))) }

/-- Shows one item of an array; what is neither a string nor a number has no effect. -/
def showItem (t : TextObject K) (state : GraphicsState K) : Operand K → TextObject K
  | .string bytes => t.showString state bytes
  | .number adjustment => t.adjust state.text adjustment
  | _ => t

def moveLine (t : TextObject K) (offset : Point K) : TextObject K :=
  let line := t.lineMatrix.translate offset
  { t with lineMatrix := line, matrix := line }

def setMatrix (t : TextObject K) (m : Transform K) : TextObject K :=
  { t with lineMatrix := m, matrix := m }

end TextObject

namespace Interpreter

def beginText (s : Interpreter K) : Interpreter K := { s with text := s.text.opened }

/-- Closes the text object and draws what it shows, in the state in force now. -/
def endText (s : Interpreter K) : Interpreter K :=
  let runs := s.text.runs
  let s := { s with text := { s.text with isOpen := false, runs := #[] } }
  if runs.isEmpty then s else s.emit (.text ⟨runs.toList, s.state⟩)

def endOpenText (s : Interpreter K) : Interpreter K := if s.text.isOpen then s.endText else s

def selectFont (name : String) (size : K) (s : Interpreter K) : Interpreter K :=
  { s with
    text := { s.text with
      font := (s.resources.resolveFont? name).getD .fallback
      fontName := name
      fontSize := size } }

def setCharSpacing (v : K) : Interpreter K → Interpreter K :=
  modifyText fun t => { t with charSpacing := v }

def setWordSpacing (v : K) : Interpreter K → Interpreter K :=
  modifyText fun t => { t with wordSpacing := v }

def setLeading (v : K) : Interpreter K → Interpreter K :=
  modifyText fun t => { t with leading := v }

def moveLine (offset : Point K) (s : Interpreter K) : Interpreter K :=
  { s with text := s.text.moveLine offset }

def moveLineSetLeading (offset : Point K) (s : Interpreter K) : Interpreter K :=
  (s.setLeading (-offset.y)).moveLine offset

def nextLine (s : Interpreter K) : Interpreter K := s.moveLine ⟨0, -s.state.text.leading⟩

def showString (bytes : List UInt8) (s : Interpreter K) : Interpreter K :=
  { s with text := s.text.showString s.state bytes }

def showArray (items : List (Operand K)) (s : Interpreter K) : Interpreter K :=
  { s with text := items.foldl (fun t item => t.showItem s.state item) s.text }

end Interpreter
end ContentStream
