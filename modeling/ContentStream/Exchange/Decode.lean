import ContentStream.Decimal
import ContentStream.Element
import ContentStream.Exchange.Record
import ContentStream.Resources
import ContentStream.Scalar.Double

set_option autoImplicit false

namespace ContentStream.Exchange

def point? (v : Json) : Option (Point Float) := (pair? real? v).map fun (x, y) => ⟨x, y⟩

def rect? (v : Json) : Option (Rect Float) :=
  match tuple? 4 real? v with
  | some [x0, y0, x1, y1] => some ⟨x0, y0, x1, y1⟩
  | _ => none

def transform? (v : Json) : Option (Transform Float) :=
  match tuple? 6 real? v with
  | some [a, b, c, d, e, f] => some ⟨a, b, c, d, e, f⟩
  | _ => none

def lineCap? : Json → Option LineCap :=
  plain? [("Butt", .butt), ("Round", .round), ("Projecting", .projecting)]

def lineJoin? : Json → Option LineJoin :=
  plain? [("Miter", .miter), ("Round", .round), ("Bevel", .bevel)]

def paint? : Json → Option Paint :=
  plain? [("Fill", .fill), ("Stroke", .stroke), ("FillStroke", .fillStroke), ("None", .none)]

def fillRule? : Json → Option FillRule := plain? [("NonZero", .nonZero), ("EvenOdd", .evenOdd)]

def maskKind? : Json → Option MaskKind := plain? [("Alpha", .alpha), ("Luminosity", .luminosity)]

variable (layout : Layout)

def colorSpaceWithin : Nat → Json → Option ColorSpace
  | 0, _ => none
  | levels + 1, v =>
    match variant? v with
    | some ("ICCBased", some v) => do
      let r ← Record.ofAlternative? layout ["components", "alternate"] v
      let n ← r.get? "components" word64?
      let alternate ← r.getNullable? "alternate" (colorSpaceWithin levels)
      return match alternate with
        | none => .icc n
        | some s => .iccVia n s
    | some ("Pattern", some v) => do
      let r ← Record.ofAlternative? layout ["underlying"] v
      let underlying ← r.getNullable? "underlying" (colorSpaceWithin levels)
      return match underlying with
        | none => .pattern
        | some s => .patternOver s
    | _ => plain? [("DeviceGray", .gray), ("DeviceRGB", .rgb), ("DeviceCMYK", .cmyk)] v

def colorSpace? (v : Json) : Option ColorSpace := colorSpaceWithin layout v.depth v

def color? (v : Json) : Option (Color Float) := do
  let r ← Record.of? ["space", "components"] v
  return ⟨← r.get? "space" (colorSpace? layout), ← r.get? "components" (list? real?)⟩

def segment? (v : Json) : Option (Segment Float) :=
  let reals := fun n v => tuple? n real? v
  match variant? v with
  | some ("MoveTo", some v) =>
    match reals 2 v with
    | some [x, y] => some (.moveTo ⟨x, y⟩)
    | _ => none
  | some ("LineTo", some v) =>
    match reals 2 v with
    | some [x, y] => some (.lineTo ⟨x, y⟩)
    | _ => none
  | some ("CurveTo", some v) =>
    match reals 6 v with
    | some [x1, y1, x2, y2, x3, y3] => some (.curveTo ⟨x1, y1⟩ ⟨x2, y2⟩ ⟨x3, y3⟩)
    | _ => none
  | some ("CurveToV", some v) =>
    match reals 4 v with
    | some [x2, y2, x3, y3] => some (.curveToV ⟨x2, y2⟩ ⟨x3, y3⟩)
    | _ => none
  | some ("CurveToY", some v) =>
    match reals 4 v with
    | some [x1, y1, x3, y3] => some (.curveToY ⟨x1, y1⟩ ⟨x3, y3⟩)
    | _ => none
  | some ("Rect", some v) =>
    match reals 4 v with
    | some [x, y, w, h] => some (.rect x y w h)
    | _ => none
  | _ => plain? [("ClosePath", .close)] v

def mask? (v : Json) : Option (Mask Float) := do
  let r ← Record.of? ["kind", "width", "height", "alpha", "bbox", "matrix"] v
  return {
    kind := ← r.get? "kind" maskKind?
    width := ← r.get? "width" word32?
    height := ← r.get? "height" word32?
    alpha := (← r.get? "alpha" bytes?).toArray
    bbox := ← r.get? "bbox" rect?
    matrix := ← r.get? "matrix" transform? }

/-- A character code as the name of a member: a decimal numeral without leading zeros. -/
def code? (name : String) : Option Nat :=
  let cs := name.toList
  let n : Nat := Decimal.digitsValue 0 cs
  if cs.isEmpty || !cs.all Char.isDigit || cs.head? == some '0' && decide (1 < cs.length) ||
      decide (UInt32.size ≤ n) then none
  else some n

def widths? (v : Json) : Option (List (Nat × Float)) :=
  if v.hasPlainNames || layout.escapedNumbers then
    (table? real? v).bind fun members =>
      members.mapM fun (m : String × Float) => (code? m.1).map fun code => (code, m.2)
  else none

def fontMetrics? (v : Json) : Option (FontMetrics Float) := do
  let base : FontMetrics Float := .fallback
  let r ← Record.of?
    ["base_font", "widths", "default_width", "ascent", "descent", "code_bytes"] v
  return {
    baseFont := ← r.getD? "base_font" string? base.baseFont
    widths := ← r.getD? "widths" (widths? layout) base.widths
    defaultWidth := ← r.getD? "default_width" real? base.defaultWidth
    ascent := ← r.getD? "ascent" real? base.ascent
    descent := ← r.getD? "descent" real? base.descent
    codeBytes := ← r.getD? "code_bytes" (fun v => (word8? v).map UInt8.toNat) base.codeBytes }

def functionWithin : Nat → Json → Option (ColorFunction Float)
  | 0, _ => none
  | levels + 1, v =>
    match variant? v with
    | some ("Exponential", some v) => do
      let r ← Record.ofAlternative? layout ["domain", "c0", "c1", "n"] v
      let (d0, d1) ← r.get? "domain" (pair? real?)
      return .exponential d0 d1 (← r.get? "c0" (list? real?)) (← r.get? "c1" (list? real?))
        (← r.get? "n" real?)
    | some ("Stitching", some v) => do
      let r ← Record.ofAlternative? layout ["domain", "functions", "bounds", "encode"] v
      let (d0, d1) ← r.get? "domain" (pair? real?)
      return .stitching d0 d1 (← r.get? "functions" (list? (functionWithin levels)))
        (← r.get? "bounds" (list? real?)) (← r.get? "encode" (list? (pair? real?)))
    | some ("Sampled", some v) => do
      let r ← Record.ofAlternative? layout ["domain", "samples"] v
      let (d0, d1) ← r.get? "domain" (pair? real?)
      return .sampled d0 d1 (← r.get? "samples" (list? (list? real?)))
    | _ => none

def function? (v : Json) : Option (ColorFunction Float) := functionWithin layout v.depth v

def shadingKind? (v : Json) : Option (ShadingKind Float) :=
  match variant? v with
  | some ("Axial", some v) => do
    let r ← Record.ofAlternative? layout ["coords"] v
    match ← r.get? "coords" (tuple? 4 real?) with
    | [x0, y0, x1, y1] => return .axial x0 y0 x1 y1
    | _ => none
  | some ("Radial", some v) => do
    let r ← Record.ofAlternative? layout ["coords"] v
    match ← r.get? "coords" (tuple? 6 real?) with
    | [x0, y0, r0, x1, y1, r1] => return .radial x0 y0 r0 x1 y1 r1
    | _ => none
  | _ => none

def shading? (v : Json) : Option (Shading Float) := do
  let r ← Record.of? ["kind", "color_space", "function", "domain", "extend", "bbox"] v
  return {
    kind := ← r.get? "kind" (shadingKind? layout)
    colorSpace := ← r.get? "color_space" (colorSpace? layout)
    function := ← r.get? "function" (function? layout)
    domain := ← r.getD? "domain" (pair? real?) (0, 1)
    extend := ← r.getD? "extend" (pair? bool?) (false, false)
    bbox := ← r.getOptional? "bbox" rect? }

def pattern? (v : Json) : Option (Pattern Float) :=
  match variant? v with
  | some ("Shading", some v) => do
    let r ← Record.ofAlternative? layout ["matrix", "shading"] v
    return .shading (← r.get? "matrix" transform?) (← r.get? "shading" (shading? layout))
  | some ("Tiling", some v) => do
    let r ← Record.ofAlternative? layout
      ["paint_type", "tiling_type", "bbox", "x_step", "y_step", "matrix", "content"] v
    return .tiling (← r.get? "paint_type" signed64?) (← r.get? "tiling_type" signed64?)
      (← r.get? "bbox" rect?) (← r.get? "x_step" real?) (← r.get? "y_step" real?)
      (← r.get? "matrix" transform?) (← r.get? "content" bytes?)
  | _ => none

def imageFilter? (v : Json) : Option ImageFilter :=
  match variant? v with
  | some ("Other", some v) => (string? v).map .other
  | _ => plain? [("None", .none), ("Jpx", .jpx)] v

def imageWithin : Nat → Json → Option ImageXObject
  | 0, _ => none
  | levels + 1, v => do
    let r ← Record.of?
      ["width", "height", "bits_per_component", "color_space", "filter", "data", "smask"] v
    return .mk (← r.get? "width" word32?) (← r.get? "height" word32?)
      (← r.getD? "bits_per_component" (fun v => (word8? v).map UInt8.toNat) 8)
      (← r.get? "color_space" (colorSpace? layout)) (← r.getD? "filter" imageFilter? .none)
      (← r.getD? "data" bytes? []).toArray (← r.getOptional? "smask" (imageWithin levels))

def image? (v : Json) : Option ImageXObject := imageWithin layout v.depth v

mutual

def resourcesWithin : Nat → Json → Option (Resources Float)
  | 0, _ => none
  | levels + 1, v => do
    let r ← Record.of?
      ["fonts", "ext_g_states", "shadings", "patterns", "color_spaces", "xobjects"] v
    return {
      fonts := ← r.getD? "fonts" (table? (fontMetrics? layout)) []
      extGStates := ← r.getD? "ext_g_states" (table? (extGStateWithin levels)) []
      shadings := ← r.getD? "shadings" (table? (shading? layout)) []
      patterns := ← r.getD? "patterns" (table? (pattern? layout)) []
      colorSpaces := ← r.getD? "color_spaces" (table? (colorSpace? layout)) []
      xObjects := ← r.getD? "xobjects" (table? (xObjectWithin levels)) [] }

def extGStateWithin : Nat → Json → Option (ExtGState Float)
  | 0, _ => none
  | levels + 1, v => do
    let dash? := fun v => match v with
      | .array [array, phase] => do return (← list? real? array, ← real? phase)
      | _ => none
    let r ← Record.of? ["line_width", "line_cap", "line_join", "miter_limit", "dash",
      "stroke_alpha", "fill_alpha", "blend_mode", "soft_mask"] v
    return {
      lineWidth := ← r.getOptional? "line_width" real?
      lineCap := ← r.getOptional? "line_cap" signed64?
      lineJoin := ← r.getOptional? "line_join" signed64?
      miterLimit := ← r.getOptional? "miter_limit" real?
      dash := ← r.getOptional? "dash" dash?
      strokeAlpha := ← r.getOptional? "stroke_alpha" real?
      fillAlpha := ← r.getOptional? "fill_alpha" real?
      blendMode := ← r.getOptional? "blend_mode" string?
      softMask := ← r.getOptional? "soft_mask" (softMaskWithin levels) }

def softMaskWithin : Nat → Json → Option (SoftMaskRef Float)
  | 0, _ => none
  | levels + 1, v =>
    match variant? v with
    | some ("Group", some v) => (groupWithin levels v).map .group
    | _ => plain? [("None", .none)] v

def groupWithin : Nat → Json → Option (SoftMaskGroup Float)
  | 0, _ => none
  | levels + 1, v => do
    let r ← Record.of? ["kind", "bbox", "matrix", "resources", "content", "knockout",
      "isolated", "backdrop", "color_space"] v
    return {
      kind := ← r.get? "kind" maskKind?
      bbox := ← r.get? "bbox" rect?
      matrix := ← r.getD? "matrix" transform? .identity
      resources := ← r.getD? "resources" (resourcesWithin levels) .empty
      content := ← r.getD? "content" bytes? []
      knockout := ← r.getD? "knockout" bool? false
      isolated := ← r.getD? "isolated" bool? false
      backdrop := ← r.getOptional? "backdrop" (list? real?)
      colorSpace := ← r.getOptional? "color_space" (colorSpace? layout) }

def xObjectWithin : Nat → Json → Option (XObject Float)
  | 0, _ => none
  | levels + 1, v =>
    match variant? v with
    | some ("Image", some v) => (image? layout v).map .image
    | some ("Form", some v) => (formWithin levels v).map .form
    | _ => none

def formWithin : Nat → Json → Option (FormXObject Float)
  | 0, _ => none
  | levels + 1, v => do
    let r ← Record.of? ["bbox", "matrix", "resources", "content"] v
    return {
      bbox := ← r.get? "bbox" rect?
      matrix := ← r.getD? "matrix" transform? .identity
      resources := ← r.getOptional? "resources" (resourcesWithin levels)
      content := ← r.get? "content" bytes? }

end

def resources? (v : Json) : Option (Resources Float) := resourcesWithin layout v.depth v

def group? (v : Json) : Option (SoftMaskGroup Float) := groupWithin layout v.depth v

def textParams? (base : TextParams Float) (v : Json) : Option (TextParams Float) := do
  let r ← Record.ofObject? ["char_spacing", "word_spacing", "horizontal_scaling", "leading",
    "render_mode", "rise"] v
  return {
    charSpacing := ← r.getD? "char_spacing" real? base.charSpacing
    wordSpacing := ← r.getD? "word_spacing" real? base.wordSpacing
    horizontalScaling := ← r.getD? "horizontal_scaling" real? base.horizontalScaling
    leading := ← r.getD? "leading" real? base.leading
    renderMode := ← r.getD? "render_mode" signed64? base.renderMode
    rise := ← r.getD? "rise" real? base.rise }

/-- The state `base` with the fields that an object gives in their place. -/
def state? (base : GraphicsState Float) (v : Json) : Option (GraphicsState Float) := do
  let r ← Record.ofObject? ["ctm", "fill_color", "stroke_color", "fill_alpha", "stroke_alpha",
    "line_width", "line_cap", "line_join", "miter_limit", "dash_array", "dash_phase",
    "rendering_intent", "flatness", "clip_bbox", "clip_mask", "soft_mask_alpha", "soft_mask",
    "blend_mode", "fill_pattern", "stroke_pattern", "text"] v
  return {
    ctm := ← r.getD? "ctm" transform? base.ctm
    fillColor := ← r.getD? "fill_color" (color? layout) base.fillColor
    strokeColor := ← r.getD? "stroke_color" (color? layout) base.strokeColor
    fillAlpha := ← r.getD? "fill_alpha" real? base.fillAlpha
    strokeAlpha := ← r.getD? "stroke_alpha" real? base.strokeAlpha
    lineWidth := ← r.getD? "line_width" real? base.lineWidth
    lineCap := ← r.getD? "line_cap" lineCap? base.lineCap
    lineJoin := ← r.getD? "line_join" lineJoin? base.lineJoin
    miterLimit := ← r.getD? "miter_limit" real? base.miterLimit
    dashArray := ← r.getD? "dash_array" (list? real?) base.dashArray
    dashPhase := ← r.getD? "dash_phase" real? base.dashPhase
    renderingIntent := ← r.getD? "rendering_intent" (nullable? string?) base.renderingIntent
    flatness := ← r.getD? "flatness" (nullable? real?) base.flatness
    clipBBox := ← r.getD? "clip_bbox" rect? base.clipBBox
    clipMask := ← r.getD? "clip_mask" (nullable? mask?) base.clipMask
    softMaskAlpha := ← r.getD? "soft_mask_alpha" real? base.softMaskAlpha
    softMask := ← r.getD? "soft_mask" (nullable? mask?) base.softMask
    blendMode := ← r.getD? "blend_mode" string? base.blendMode
    fillPattern := ← r.getD? "fill_pattern" (nullable? string?) base.fillPattern
    strokePattern := ← r.getD? "stroke_pattern" (nullable? string?) base.strokePattern
    text := ← r.getD? "text" (textParams? base.text) base.text }

def textRun? (v : Json) : Option (TextRun Float) := do
  let r ← Record.of? ["text", "bytes", "start", "end", "font_name", "base_font", "font_size",
    "effective_font_size", "char_spacing", "word_spacing", "horizontal_scaling", "rise",
    "outline"] v
  return {
    text := ← r.get? "text" string?
    bytes := ← r.get? "bytes" bytes?
    start := ← r.get? "start" point?
    finish := ← r.get? "end" point?
    fontName := ← r.get? "font_name" string?
    baseFont := ← r.get? "base_font" string?
    fontSize := ← r.get? "font_size" real?
    effectiveFontSize := ← r.get? "effective_font_size" real?
    charSpacing := ← r.get? "char_spacing" real?
    wordSpacing := ← r.get? "word_spacing" real?
    horizontalScaling := ← r.get? "horizontal_scaling" real?
    rise := ← r.get? "rise" real?
    outline := ← r.get? "outline" (tuple? 4 point?) }

/-- An element; the fields that its state does not give are those of the initial state. -/
def element? (v : Json) : Option (Element Float) :=
  let state := fun r : Record => r.getD? "state" (state? layout .initial) .initial
  match variant? v with
  | some ("Path", some v) => do
    let r ← Record.of? ["segments", "paint", "fill_rule", "state"] v
    return .path {
      segments := ← r.get? "segments" (list? segment?)
      paint := ← r.get? "paint" paint?
      fillRule := ← r.getNullable? "fill_rule" fillRule?
      state := ← state r }
  | some ("Text", some v) => do
    let r ← Record.of? ["runs", "state"] v
    return .text { runs := ← r.get? "runs" (list? textRun?), state := ← state r }
  | some ("Image", some v) => do
    let r ← Record.of? ["name", "state"] v
    return .image { name := ← r.get? "name" string?, state := ← state r }
  | some ("RasterImage", some v) => do
    let r ← Record.of? ["pixels", "width", "height", "color_space", "state"] v
    return .raster {
      pixels := (← r.get? "pixels" bytes?).toArray
      width := ← r.get? "width" word32?
      height := ← r.get? "height" word32?
      colorSpace := ← r.get? "color_space" (colorSpace? layout)
      state := ← state r }
  | _ => none

end ContentStream.Exchange
