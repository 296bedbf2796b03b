set_option autoImplicit false

namespace ContentStream

inductive Operator
  | save | restore | concat | lineWidth | lineCap | lineJoin | miterLimit | dash
  | renderingIntent | flatness | extGState
  | moveTo | lineTo | curveTo | curveToV | curveToY | closePath | rect
  | stroke | closeStroke | fill | fillObsolete | fillEvenOdd | fillStroke | fillStrokeEvenOdd
  | closeFillStroke | closeFillStrokeEvenOdd | endPath | clip | clipEvenOdd
  | beginText | endText | charSpacing | wordSpacing | horizontalScaling | leading | font
  | renderMode | rise | moveText | moveTextSetLeading | textMatrix | nextLine | showText
  | showTextArray | nextLineShowText | nextLineShowTextSpaced
  | strokeGray | fillGray | strokeRgb | fillRgb | strokeCmyk | fillCmyk | strokeColorSpace
  | fillColorSpace | strokeColor | strokeColorN | fillColor | fillColorN
  | paintShading
  | paintXObject
  deriving DecidableEq

inductive OperatorCategory
  | graphicsState | pathConstruction | pathPainting | text | color | shading | xObject
  deriving DecidableEq

namespace Operator

def table : List (String × Operator) := [
  ("q", save), ("Q", restore), ("cm", concat), ("w", lineWidth), ("J", lineCap),
  ("j", lineJoin), ("M", miterLimit), ("d", dash), ("ri", renderingIntent), ("i", flatness),
  ("gs", extGState),
  ("m", moveTo), ("l", lineTo), ("c", curveTo), ("v", curveToV), ("y", curveToY),
  ("h", closePath), ("re", rect),
  ("S", stroke), ("s", closeStroke), ("f", fill), ("F", fillObsolete), ("f*", fillEvenOdd),
  ("B", fillStroke), ("B*", fillStrokeEvenOdd), ("b", closeFillStroke),
  ("b*", closeFillStrokeEvenOdd), ("n", endPath), ("W", clip), ("W*", clipEvenOdd),
  ("BT", beginText), ("ET", endText), ("Tc", charSpacing), ("Tw", wordSpacing),
  ("Tz", horizontalScaling), ("TL", leading), ("Tf", font), ("Tr", renderMode), ("Ts", rise),
  ("Td", moveText), ("TD", moveTextSetLeading), ("Tm", textMatrix), ("T*", nextLine),
  ("Tj", showText), ("TJ", showTextArray), ("'", nextLineShowText),
  ("\"", nextLineShowTextSpaced),
  ("G", strokeGray), ("g", fillGray), ("RG", strokeRgb), ("rg", fillRgb), ("K", strokeCmyk),
  ("k", fillCmyk), ("CS", strokeColorSpace), ("cs", fillColorSpace), ("SC", strokeColor),
  ("SCN", strokeColorN), ("sc", fillColor), ("scn", fillColorN),
  ("sh", paintShading),
  ("Do", paintXObject)]

def ofName? (name : String) : Option Operator := table.lookup name

def category : Operator → OperatorCategory
  | save | restore | concat | lineWidth | lineCap | lineJoin | miterLimit | dash
  | renderingIntent | flatness | extGState => .graphicsState
  | moveTo | lineTo | curveTo | curveToV | curveToY | closePath | rect => .pathConstruction
  | stroke | closeStroke | fill | fillObsolete | fillEvenOdd | fillStroke | fillStrokeEvenOdd
  | closeFillStroke | closeFillStrokeEvenOdd | endPath | clip | clipEvenOdd => .pathPainting
  | beginText | endText | charSpacing | wordSpacing | horizontalScaling | leading | font
  | renderMode | rise | moveText | moveTextSetLeading | textMatrix | nextLine | showText
  | showTextArray | nextLineShowText | nextLineShowTextSpaced => .text
  | strokeGray | fillGray | strokeRgb | fillRgb | strokeCmyk | fillCmyk | strokeColorSpace
  | fillColorSpace | strokeColor | strokeColorN | fillColor | fillColorN => .color
  | paintShading => .shading
  | paintXObject => .xObject

end Operator
end ContentStream
