import ContentStream.Element
import ContentStream.Json
import ContentStream.Resources

set_option autoImplicit false

namespace ContentStream.Exchange

def ofNat (n : Nat) : Json := .int n

def ofReals (xs : List Float) : Json := .array (xs.map .real)

def ofPair (x y : Float) : Json := ofReals [x, y]

def ofBytes (bytes : List UInt8) : Json := .array (bytes.map fun b => ofNat b.toNat)

def ofOption {α : Type} (write : α → Json) : Option α → Json
  | none => .null
  | some x => write x

def ofList {α : Type} (write : α → Json) (xs : List α) : Json := .array (xs.map write)

def ofTable {α : Type} (write : α → Json) (table : List (String × α)) : Json :=
  .object (table.map fun (name, x) => (name, write x))

def ofVariant (name : String) (v : Json) : Json := .object [(name, v)]

def ofPoint (p : Point Float) : Json := ofPair p.x p.y

def ofRect (r : Rect Float) : Json := ofReals [r.x0, r.y0, r.x1, r.y1]

def ofTransform (t : Transform Float) : Json := ofReals [t.a, t.b, t.c, t.d, t.e, t.f]

def lineCapName : LineCap → String
  | .butt => "Butt"
  | .round => "Round"
  | .projecting => "Projecting"

def lineJoinName : LineJoin → String
  | .miter => "Miter"
  | .round => "Round"
  | .bevel => "Bevel"

def paintName : Paint → String
  | .fill => "Fill"
  | .stroke => "Stroke"
  | .fillStroke => "FillStroke"
  | .none => "None"

def fillRuleName : FillRule → String
  | .nonZero => "NonZero"
  | .evenOdd => "EvenOdd"

def maskKindName : MaskKind → String
  | .alpha => "Alpha"
  | .luminosity => "Luminosity"

def ofColorSpace : ColorSpace → Json
  | .gray => .string "DeviceGray"
  | .rgb => .string "DeviceRGB"
  | .cmyk => .string "DeviceCMYK"
  | .icc n => ofVariant "ICCBased" (.object [("alternate", .null), ("components", ofNat n)])
  | .iccVia n s =>
    ofVariant "ICCBased" (.object [("alternate", ofColorSpace s), ("components", ofNat n)])
  | .pattern => ofVariant "Pattern" (.object [("underlying", .null)])
  | .patternOver s => ofVariant "Pattern" (.object [("underlying", ofColorSpace s)])

def ofColor (c : Color Float) : Json :=
  .object [("components", ofReals c.components), ("space", ofColorSpace c.space)]

def ofSegment : Segment Float → Json
  | .moveTo p => ofVariant "MoveTo" (ofReals [p.x, p.y])
  | .lineTo p => ofVariant "LineTo" (ofReals [p.x, p.y])
  | .curveTo c1 c2 p => ofVariant "CurveTo" (ofReals [c1.x, c1.y, c2.x, c2.y, p.x, p.y])
  | .curveToV c2 p => ofVariant "CurveToV" (ofReals [c2.x, c2.y, p.x, p.y])
  | .curveToY c1 p => ofVariant "CurveToY" (ofReals [c1.x, c1.y, p.x, p.y])
  | .rect x y w h => ofVariant "Rect" (ofReals [x, y, w, h])
  | .close => .string "ClosePath"

def ofMask (m : Mask Float) : Json :=
  .object [
    ("alpha", ofBytes m.alpha.toList),
    ("bbox", ofRect m.bbox),
    ("height", ofNat m.height),
    ("kind", .string (maskKindName m.kind)),
    ("matrix", ofTransform m.matrix),
    ("width", ofNat m.width)]

def ofFontMetrics (f : FontMetrics Float) : Json :=
  .object [
    ("ascent", .real f.ascent),
    ("base_font", .string f.baseFont),
    ("code_bytes", ofNat f.codeBytes),
    ("default_width", .real f.defaultWidth),
    ("descent", .real f.descent),
    ("widths", .object (f.widths.map fun (code, width) => (toString code, .real width)))]

mutual

def ofFunction : ColorFunction Float → Json
  | .exponential d0 d1 c0 c1 n =>
    ofVariant "Exponential" (.object [
      ("c0", ofReals c0),
      ("c1", ofReals c1),
      ("domain", ofPair d0 d1),
      ("n", .real n)])
  | .stitching d0 d1 functions bounds encode =>
    ofVariant "Stitching" (.object [
      ("bounds", ofReals bounds),
      ("domain", ofPair d0 d1),
      ("encode", .array (encode.map fun (e0, e1) => ofPair e0 e1)),
      ("functions", .array (ofFunctions functions))])
  | .sampled d0 d1 samples =>
    ofVariant "Sampled" (.object [
      ("domain", ofPair d0 d1),
      ("samples", ofList ofReals samples)])

def ofFunctions : List (ColorFunction Float) → List Json
  | [] => []
  | f :: fs => ofFunction f :: ofFunctions fs

end

def ofShadingKind : ShadingKind Float → Json
  | .axial x0 y0 x1 y1 => ofVariant "Axial" (.object [("coords", ofReals [x0, y0, x1, y1])])
  | .radial x0 y0 r0 x1 y1 r1 =>
    ofVariant "Radial" (.object [("coords", ofReals [x0, y0, r0, x1, y1, r1])])

def ofShading (s : Shading Float) : Json :=
  .object [
    ("bbox", ofOption ofRect s.bbox),
    ("color_space", ofColorSpace s.colorSpace),
    ("domain", ofPair s.domain.1 s.domain.2),
    ("extend", .array [.bool s.extend.1, .bool s.extend.2]),
    ("function", ofFunction s.function),
    ("kind", ofShadingKind s.kind)]

def ofPattern : Pattern Float → Json
  | .shading matrix s =>
    ofVariant "Shading" (.object [("matrix", ofTransform matrix), ("shading", ofShading s)])
  | .tiling paintType tilingType bbox xStep yStep matrix content =>
    ofVariant "Tiling" (.object [
      ("bbox", ofRect bbox),
      ("content", ofBytes content),
      ("matrix", ofTransform matrix),
      ("paint_type", .int paintType),
      ("tiling_type", .int tilingType),
      ("x_step", .real xStep),
      ("y_step", .real yStep)])

def ofImageFilter : ImageFilter → Json
  | .none => .string "None"
  | .jpx => .string "Jpx"
  | .other name => ofVariant "Other" (.string name)

def ofImage : ImageXObject → Json
  | .mk w h bits space filter data smask =>
    .object [
      ("bits_per_component", ofNat bits),
      ("color_space", ofColorSpace space),
      ("data", ofBytes data.toList),
      ("filter", ofImageFilter filter),
      ("height", ofNat h),
      ("smask", match smask with
        | none => .null
        | some i => ofImage i),
      ("width", ofNat w)]

mutual

def ofResources : Resources Float → Json
  | ⟨fonts, extGStates, shadings, patterns, colorSpaces, xObjects⟩ =>
    .object [
      ("color_spaces", ofTable ofColorSpace colorSpaces),
      ("ext_g_states", .object (ofExtGStates extGStates)),
      ("fonts", ofTable ofFontMetrics fonts),
      ("patterns", ofTable ofPattern patterns),
      ("shadings", ofTable ofShading shadings),
      ("xobjects", .object (ofXObjects xObjects))]

def ofExtGStates : List (String × ExtGState Float) → List (String × Json)
  | [] => []
  | (name, e) :: rest => (name, ofExtGState e) :: ofExtGStates rest

def ofXObjects : List (String × XObject Float) → List (String × Json)
  | [] => []
  | (name, x) :: rest => (name, ofXObject x) :: ofXObjects rest

def ofExtGState : ExtGState Float → Json
  | ⟨lineWidth, lineCap, lineJoin, miterLimit, dash, strokeAlpha, fillAlpha, blendMode,
      softMask⟩ =>
    .object [
      ("blend_mode", ofOption .string blendMode),
      ("dash", ofOption (fun (array, phase) => .array [ofReals array, .real phase]) dash),
      ("fill_alpha", ofOption .real fillAlpha),
      ("line_cap", ofOption .int lineCap),
      ("line_join", ofOption .int lineJoin),
      ("line_width", ofOption .real lineWidth),
      ("miter_limit", ofOption .real miterLimit),
      ("soft_mask", match softMask with
        | none => .null
        | some m => ofSoftMask m),
      ("stroke_alpha", ofOption .real strokeAlpha)]

def ofSoftMask : SoftMaskRef Float → Json
  | .none => .string "None"
  | .group g => ofVariant "Group" (ofGroup g)

def ofGroup : SoftMaskGroup Float → Json
  | ⟨kind, bbox, matrix, resources, content, knockout, isolated, backdrop, colorSpace⟩ =>
    .object [
      ("backdrop", ofOption ofReals backdrop),
      ("bbox", ofRect bbox),
      ("color_space", ofOption ofColorSpace colorSpace),
      ("content", ofBytes content),
      ("isolated", .bool isolated),
      ("kind", .string (maskKindName kind)),
      ("knockout", .bool knockout),
      ("matrix", ofTransform matrix),
      ("resources", ofResources resources)]

def ofXObject : XObject Float → Json
  | .image i => ofVariant "Image" (ofImage i)
  | .form f => ofVariant "Form" (ofForm f)

def ofForm : FormXObject Float → Json
  | ⟨bbox, matrix, resources, content⟩ =>
    .object [
      ("bbox", ofRect bbox),
      ("content", ofBytes content),
      ("matrix", ofTransform matrix),
      ("resources", match resources with
        | none => .null
        | some r => ofResources r)]

end

def ofTextParams (t : TextParams Float) : Json :=
  .object [
    ("char_spacing", .real t.charSpacing),
    ("horizontal_scaling", .real t.horizontalScaling),
    ("leading", .real t.leading),
    ("render_mode", .int t.renderMode),
    ("rise", .real t.rise),
    ("word_spacing", .real t.wordSpacing)]

def ofState (s : GraphicsState Float) : Json :=
  .object [
    ("blend_mode", .string s.blendMode),
    ("clip_bbox", ofRect s.clipBBox),
    ("clip_mask", ofOption ofMask s.clipMask),
    ("ctm", ofTransform s.ctm),
    ("dash_array", ofReals s.dashArray),
    ("dash_phase", .real s.dashPhase),
    ("fill_alpha", .real s.fillAlpha),
    ("fill_color", ofColor s.fillColor),
    ("fill_pattern", ofOption .string s.fillPattern),
    ("flatness", ofOption .real s.flatness),
    ("line_cap", .string (lineCapName s.lineCap)),
    ("line_join", .string (lineJoinName s.lineJoin)),
    ("line_width", .real s.lineWidth),
    ("miter_limit", .real s.miterLimit),
    ("rendering_intent", ofOption .string s.renderingIntent),
    ("soft_mask", ofOption ofMask s.softMask),
    ("soft_mask_alpha", .real s.softMaskAlpha),
    ("stroke_alpha", .real s.strokeAlpha),
    ("stroke_color", ofColor s.strokeColor),
    ("stroke_pattern", ofOption .string s.strokePattern),
    ("text", ofTextParams s.text)]

def ofTextRun (r : TextRun Float) : Json :=
  .object [
    ("base_font", .string r.baseFont),
    ("bytes", ofBytes r.bytes),
    ("char_spacing", .real r.charSpacing),
    ("effective_font_size", .real r.effectiveFontSize),
    ("end", ofPoint r.finish),
    ("font_name", .string r.fontName),
    ("font_size", .real r.fontSize),
    ("horizontal_scaling", .real r.horizontalScaling),
    ("outline", ofList ofPoint r.outline),
    ("rise", .real r.rise),
    ("start", ofPoint r.start),
    ("text", .string r.text),
    ("word_spacing", .real r.wordSpacing)]

def ofElement : Element Float → Json
  | .path e =>
    ofVariant "Path" (.object [
      ("fill_rule", ofOption (fun rule => .string (fillRuleName rule)) e.fillRule),
      ("paint", .string (paintName e.paint)),
      ("segments", ofList ofSegment e.segments),
      ("state", ofState e.state)])
  | .text e =>
    ofVariant "Text" (.object [("runs", ofList ofTextRun e.runs), ("state", ofState e.state)])
  | .image e =>
    ofVariant "Image" (.object [("name", .string e.name), ("state", ofState e.state)])
  | .raster e =>
    ofVariant "RasterImage" (.object [
      ("color_space", ofColorSpace e.colorSpace),
      ("height", ofNat e.height),
      ("pixels", ofBytes e.pixels.toList),
      ("state", ofState e.state),
      ("width", ofNat e.width)])

end ContentStream.Exchange
