import ContentStream.Scalar

set_option autoImplicit false

namespace ContentStream
variable {K : Type} [Scalar K]

structure Rgb (K : Type) where
  r : K
  g : K
  b : K
  deriving DecidableEq

inductive ColorSpace
  | gray
  | rgb
  | cmyk
  /-- An ICC profile without an alternate space. -/
  | icc (components : Nat)
  /-- An ICC profile that is rendered through an alternate space. -/
  | iccVia (components : Nat) (alternate : ColorSpace)
  | pattern
  /-- The space of uncoloured patterns, which take a colour of an underlying space. -/
  | patternOver (underlying : ColorSpace)
  deriving DecidableEq

namespace Rgb

def black : Rgb K := ⟨0, 0, 0⟩

def map {L : Type} (f : K → L) (c : Rgb K) : Rgb L := ⟨f c.r, f c.g, f c.b⟩

def luminance (c : Rgb K) : K := 0.299 * c.r + 0.587 * c.g + 0.114 * c.b

def toBytes (c : Rgb K) : List UInt8 :=
  [Scalar.toByte c.r, Scalar.toByte c.g, Scalar.toByte c.b]

end Rgb

namespace ColorSpace

def ofDeviceName? (name : String) : Option ColorSpace :=
  if name == "DeviceGray" || name == "G" || name == "CalGray" then some gray
  else if name == "DeviceRGB" || name == "RGB" || name == "CalRGB" then some rgb
  else if name == "DeviceCMYK" || name == "CMYK" then some cmyk
  else if name == "Pattern" then some pattern
  else none

def ofComponentCount? : Nat → Option ColorSpace
  | 1 => some gray
  | 3 => some rgb
  | 4 => some cmyk
  | _ => none

def componentCount : ColorSpace → Nat
  | gray => 1
  | rgb => 3
  | cmyk => 4
  | icc n => n
  | iccVia n _ => n
  | pattern => 0
  | patternOver s => s.componentCount

def isPattern : ColorSpace → Bool
  | pattern | patternOver _ => true
  | _ => false

/-- The components of the colour that selecting the space sets. -/
def initialComponents : ColorSpace → List K
  | cmyk | icc 4 => [0, 0, 0, 1]
  | iccVia _ s => s.initialComponents
  | s => List.replicate s.componentCount 0

def channel (components : List K) (i : Nat) : K := Scalar.clampUnit (components.getD i 0)

def grayToRgb (components : List K) : Rgb K :=
  let g := channel components 0
  ⟨g, g, g⟩

def rgbToRgb (components : List K) : Rgb K :=
  ⟨channel components 0, channel components 1, channel components 2⟩

/-- Without a profile each channel is `(1 - colorant) (1 - black)`. -/
def cmykToRgb (components : List K) : Rgb K :=
  let k := 1 - channel components 3
  ⟨(1 - channel components 0) * k, (1 - channel components 1) * k, (1 - channel components 2) * k⟩

def toRgb : ColorSpace → List K → Rgb K
  | gray, cs | icc 1, cs => grayToRgb cs
  | rgb, cs => rgbToRgb cs
  | cmyk, cs | icc 4, cs => cmykToRgb cs
  | icc _, cs => rgbToRgb cs
  | iccVia _ s, cs => s.toRgb cs
  | pattern, _ => Rgb.black
  | patternOver s, cs => s.toRgb cs

end ColorSpace

structure Color (K : Type) where
  space : ColorSpace
  components : List K
  deriving DecidableEq

namespace Color

def gray (g : K) : Color K := ⟨.gray, [g]⟩

def rgb (r g b : K) : Color K := ⟨.rgb, [r, g, b]⟩

def cmyk (c m y k : K) : Color K := ⟨.cmyk, [c, m, y, k]⟩

def initial (s : ColorSpace) : Color K := ⟨s, s.initialComponents⟩

def toRgb (c : Color K) : Rgb K := c.space.toRgb c.components

def luminance (c : Color K) : K := c.toRgb.luminance

end Color
end ContentStream
