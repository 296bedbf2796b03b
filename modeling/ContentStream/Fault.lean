import ContentStream.Geometry

set_option autoImplicit false

namespace ContentStream

inductive DecodeCause
  | emptyImage
  | patternImage
  | bitsPerComponent (bits : Nat)
  | filter (name : String)
  | emptyGroupImage
  /-- Reported by a decoder from outside. -/
  | decoder (text : String)
  deriving DecidableEq

inductive MaskCause (K : Type)
  | patternPaint
  | singularPlacement
  | backdropComponents (count : Nat)
  | unrasterizable (bbox : Rect K)
  deriving DecidableEq

inductive Fault (K : Type)
  /-- A number without digits that begins at the byte offset given. -/
  | invalidNumber (position : Nat)
  | unexpectedEnd
  | missingDecoder (name : String)
  | undecodable (cause : DecodeCause)
  | unsupportedMask (cause : MaskCause K)
  | dimensionMismatch (expected got : Nat)
  | missingKey (name : String)
  deriving DecidableEq

namespace Fault
variable {K : Type}

def isFatal : Fault K → Bool
  | missingDecoder _ => true
  | _ => false

end Fault

def DecodeCause.message : DecodeCause → String
  | emptyImage => "empty image"
  | patternImage => "image in Pattern space"
  | bitsPerComponent bits => "unsupported bits per component " ++ toString bits
  | filter name => "unsupported image filter " ++ name
  | emptyGroupImage => "empty image in mask group"
  | decoder text => text

def MaskCause.message {K : Type} (coordinate : K → String) : MaskCause K → String
  | patternPaint => "pattern paint in mask group"
  | singularPlacement => "singular image placement"
  | backdropComponents count => "backdrop with " ++ toString count ++ " components"
  | unrasterizable r =>
    "cannot rasterize bbox (" ++ ", ".intercalate ([r.x0, r.y0, r.x1, r.y1].map coordinate) ++ ")"

def Fault.message {K : Type} (coordinate : K → String) : Fault K → String
  | invalidNumber position =>
    "invalid token at position " ++ toString position ++ ": invalid number"
  | unexpectedEnd => "unexpected end of input"
  | missingDecoder name => "no decoder configured for " ++ name
  | undecodable cause => "decode error: " ++ cause.message
  | unsupportedMask cause => "unsupported soft mask structure: " ++ cause.message coordinate
  | dimensionMismatch expected got =>
    "dimension mismatch: expected " ++ toString expected ++ " samples, got " ++ toString got
  | missingKey name => "key not found: " ++ name

end ContentStream
