import ContentStream.Element
import ContentStream.Fault
import ContentStream.Resources

set_option autoImplicit false

namespace ContentStream

/-- Straight-alpha pixels, four bytes each, the top row first. -/
structure DecodedImage where
  width : Nat
  height : Nat
  rgba : Array UInt8
  deriving DecidableEq

def DecodedImage.pixel (i : DecodedImage) (col row : Nat) : Rgba :=
  .ofBuffer i.rgba i.width col row

variable {K : Type}

abbrev JpxDecoder (K : Type) := List UInt8 → Except (Fault K) DecodedImage

namespace ImageXObject
variable [Scalar K]

def sampleGroup (data : Array UInt8) (n i : Nat) : List UInt8 :=
  (List.range n).map fun k => data.getD (i * n + k) 0

def bytePixel (K : Type) [Scalar K] (space : ColorSpace) (samples : List UInt8) : List UInt8 :=
  (space.toRgb (samples.map (Scalar.ofByte (K := K)))).toBytes ++ [255]

/-- Bit `col` of a row of one-bit samples that is padded to `stride` bytes. -/
def bit (data : Array UInt8) (stride col row : Nat) : Bool :=
  (data.getD (row * stride + col / 8) 0).toNat.testBit (7 - col % 8)

def bitPixel (on : Bool) : List UInt8 :=
  let v := if on then 255 else 0
  [v, v, v, 255]

def decodeRaw (i : ImageXObject) : Except (Fault K) DecodedImage :=
  let w := i.width
  let h := i.height
  let n := i.colorSpace.componentCount
  if w = 0 ∨ h = 0 then .error (.undecodable .emptyImage)
  else if n = 0 then .error (.undecodable .patternImage)
  else if i.bitsPerComponent = 8 then
    let expected := w * h * n
    if i.data.size < expected then .error (.dimensionMismatch expected i.data.size)
    else
      let pixels := (List.range (w * h)).flatMap fun k =>
        bytePixel K i.colorSpace (sampleGroup i.data n k)
      .ok ⟨w, h, pixels.toArray⟩
  else if i.bitsPerComponent = 1 ∧ i.colorSpace = .gray then
    let stride := (w + 7) / 8
    let expected := stride * h
    if i.data.size < expected then .error (.dimensionMismatch expected i.data.size)
    else
      let pixels := (Grid.tabulate w h fun col row => bit i.data stride col row).flatMap bitPixel
      .ok ⟨w, h, pixels.toArray⟩
  else .error (.undecodable (.bitsPerComponent i.bitsPerComponent))

/-- Decodes the samples without regard to the alpha image. What a decoder returns has to have the
size that the image declares. -/
def decodeSamples (jpx : Option (JpxDecoder K)) (i : ImageXObject) :
    Except (Fault K) DecodedImage :=
  match i.filter with
  | .none => decodeRaw i
  | .jpx =>
    match jpx with
    | none => .error (.missingDecoder "JPXDecode")
    | some decode =>
      match decode i.data.toList with
      | .error e => .error e
      | .ok image =>
        if image.width ≠ i.width ∨ image.height ≠ i.height ∨
            image.rgba.size ≠ image.width * image.height * 4 then
          .error (.dimensionMismatch (i.width * i.height * 4) image.rgba.size)
        else .ok image
  | .other name => .error (.undecodable (.filter name))

/-- Replaces every alpha byte by the red byte of the same pixel in another image. -/
def applyAlpha (rgba mask : Array UInt8) : Array UInt8 :=
  rgba.mapIdx fun k b => if k % 4 = 3 then mask.getD (k - 3) 0 else b

def decode (jpx : Option (JpxDecoder K)) (i : ImageXObject) : Except (Fault K) DecodedImage :=
  match decodeSamples jpx i with
  | .error e => .error e
  | .ok image =>
    match i.smask with
    | none => .ok image
    | some smask =>
      match decodeSamples jpx smask with
      | .error e => .error e
      | .ok mask =>
        if mask.width ≠ image.width ∨ mask.height ≠ image.height then
          .error (.dimensionMismatch (image.width * image.height) (mask.width * mask.height))
        else .ok { image with rgba := applyAlpha image.rgba mask.rgba }

end ImageXObject
end ContentStream
