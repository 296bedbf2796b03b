import ContentStream.Color
import ContentStream.ColorFunction
import ContentStream.Mask

set_option autoImplicit false

namespace ContentStream

structure FontMetrics (K : Type) where
  baseFont : String
  /-- Glyph widths in thousandths of the font size, by character code. -/
  widths : List (Nat × K)
  defaultWidth : K
  ascent : K
  descent : K
  /-- Bytes to a character code; all from two on mean two. -/
  codeBytes : Nat
  deriving DecidableEq

inductive ShadingKind (K : Type)
  | axial (x0 y0 x1 y1 : K)
  | radial (x0 y0 r0 x1 y1 r1 : K)
  deriving DecidableEq

structure Shading (K : Type) where
  kind : ShadingKind K
  colorSpace : ColorSpace
  function : ColorFunction K
  domain : K × K
  /-- Whether to paint before the start and past the end. -/
  extend : Bool × Bool
  bbox : Option (Rect K)

inductive Pattern (K : Type)
  | shading (matrix : Transform K) (shading : Shading K)
  | tiling (paintType tilingType : Int) (bbox : Rect K) (xStep yStep : K) (matrix : Transform K)
      (content : List UInt8)

inductive ImageFilter
  | none
  | jpx
  | other (name : String)
  deriving DecidableEq

inductive ImageXObject
  | mk (width height bitsPerComponent : Nat) (colorSpace : ColorSpace) (filter : ImageFilter)
      (data : Array UInt8) (smask : Option ImageXObject)

namespace ImageXObject

def width : ImageXObject → Nat | mk w .. => w
def height : ImageXObject → Nat | mk _ h .. => h
def bitsPerComponent : ImageXObject → Nat | mk _ _ b .. => b
def colorSpace : ImageXObject → ColorSpace | mk _ _ _ s .. => s
def filter : ImageXObject → ImageFilter | mk _ _ _ _ f .. => f
def data : ImageXObject → Array UInt8 | mk _ _ _ _ _ d _ => d
def smask : ImageXObject → Option ImageXObject | mk _ _ _ _ _ _ m => m

end ImageXObject

mutual

structure Resources (K : Type) where
  fonts : List (String × FontMetrics K)
  extGStates : List (String × ExtGState K)
  shadings : List (String × Shading K)
  patterns : List (String × Pattern K)
  colorSpaces : List (String × ColorSpace)
  xObjects : List (String × XObject K)

structure ExtGState (K : Type) where
  lineWidth : Option K
  lineCap : Option Int
  lineJoin : Option Int
  miterLimit : Option K
  dash : Option (List K × K)
  strokeAlpha : Option K
  fillAlpha : Option K
  blendMode : Option String
  softMask : Option (SoftMaskRef K)

inductive SoftMaskRef (K : Type)
  | none
  | group (g : SoftMaskGroup K)

structure SoftMaskGroup (K : Type) where
  kind : MaskKind
  bbox : Rect K
  matrix : Transform K
  resources : Resources K
  content : List UInt8
  /-- Whether an element replaces what lies below it instead of covering it. -/
  knockout : Bool
  isolated : Bool
  backdrop : Option (List K)
  colorSpace : Option ColorSpace

structure FormXObject (K : Type) where
  bbox : Rect K
  matrix : Transform K
  /-- Without resources of its own a form uses those in force. -/
  resources : Option (Resources K)
  content : List UInt8

inductive XObject (K : Type)
  | image (i : ImageXObject)
  | form (f : FormXObject K)

end

variable {K : Type} [Scalar K]

namespace FontMetrics

def fallback : FontMetrics K where
  baseFont := ""
  widths := []
  defaultWidth := ((500 : Nat) : K)
  ascent := ((800 : Nat) : K)
  descent := -((200 : Nat) : K)
  codeBytes := 1

def width (f : FontMetrics K) (code : Nat) : K := (f.widths.lookup code).getD f.defaultWidth

def isMultibyte (f : FontMetrics K) : Bool := decide (2 ≤ f.codeBytes)

/-- Big-endian pairs of bytes; an odd byte at the end is a code of its own. -/
def pairCodes : List UInt8 → List Nat
  | hi :: lo :: rest => (hi.toNat * 256 + lo.toNat) :: pairCodes rest
  | [b] => [b.toNat]
  | [] => []

def charCodes (f : FontMetrics K) (bytes : List UInt8) : List Nat :=
  if f.isMultibyte then pairCodes bytes else bytes.map UInt8.toNat

end FontMetrics

namespace ExtGState

def empty : ExtGState K :=
  ⟨none, none, none, none, none, none, none, none, none⟩

end ExtGState

namespace Resources

def empty : Resources K := ⟨[], [], [], [], [], []⟩

/-- The key that a name is looked up by: the name without one leading slash. -/
def key (name : String) : String :=
  match name.toList with
  | '/' :: cs => String.ofList cs
  | _ => name

def find? {α : Type} (table : List (String × α)) (name : String) : Option α :=
  table.lookup (key name)

def font? (r : Resources K) (name : String) : Option (FontMetrics K) := find? r.fonts name

def extGState? (r : Resources K) (name : String) : Option (ExtGState K) :=
  find? r.extGStates name

def shading? (r : Resources K) (name : String) : Option (Shading K) := find? r.shadings name

def pattern? (r : Resources K) (name : String) : Option (Pattern K) := find? r.patterns name

def colorSpace? (r : Resources K) (name : String) : Option ColorSpace := find? r.colorSpaces name

def xObject? (r : Resources K) (name : String) : Option (XObject K) := find? r.xObjects name

def withoutSubsetTag? (name : String) : Option String :=
  match name.toList.dropWhile (· != '+') with
  | _ :: cs => some (String.ofList cs)
  | [] => none

/-- The metrics of a font, which may be entered without the subset tag that its name has. -/
def resolveFont? (r : Resources K) (name : String) : Option (FontMetrics K) :=
  match r.font? name with
  | some f => some f
  | none => (withoutSubsetTag? (key name)).bind r.font?

def resolveColorSpace (r : Resources K) (name : String) : ColorSpace :=
  match ColorSpace.ofDeviceName? name with
  | some s => s
  | none => (r.colorSpace? name).getD .gray

end Resources
end ContentStream
