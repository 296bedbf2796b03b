import ContentStream.Image

set_option autoImplicit false

namespace ContentStream

structure Options (K : Type) where
  initialCtm : Transform K
  pageBBox : Option (Rect K)
  shadingBudget : Nat
  /-- Zero keeps only the bounds of a clip. -/
  clipBudget : Nat
  softMaskBudget : Nat
  /-- How deep soft mask groups may refer to further soft masks. -/
  maxMaskDepth : Nat
  maxFormDepth : Nat
  jpx : Option (JpxDecoder K)

def Options.standard {K : Type} [Scalar K] : Options K where
  initialCtm := .identity
  pageBBox := none
  shadingBudget := 256
  clipBudget := 0
  softMaskBudget := 256
  maxMaskDepth := 8
  maxFormDepth := 16
  jpx := none

end ContentStream
