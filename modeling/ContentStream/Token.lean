import ContentStream.Scalar

set_option autoImplicit false

namespace ContentStream

inductive Token (K : Type)
  | number (value : K)
  | string (bytes : List UInt8)
  /-- A name without its leading slash. -/
  | name (text : String)
  | arrayStart
  | arrayEnd
  | operator (name : String)
  deriving DecidableEq

def byte (c : Char) : UInt8 := UInt8.ofNat c.toNat

/-- The bytes that separate tokens: space, tab, line feed, form feed, carriage return and NUL. -/
def isBlank (b : UInt8) : Bool := b == 32 || b == 9 || b == 10 || b == 12 || b == 13 || b == 0

def isDelimiter (b : UInt8) : Bool :=
  b == byte '(' || b == byte ')' || b == byte '<' || b == byte '>' || b == byte '[' ||
  b == byte ']' || b == byte '{' || b == byte '}' || b == byte '/' || b == byte '%'

def isRegular (b : UInt8) : Bool := !isBlank b && !isDelimiter b

def isDigit (b : UInt8) : Bool := byte '0' ≤ b && b ≤ byte '9'

def isOctalDigit (b : UInt8) : Bool := byte '0' ≤ b && b ≤ byte '7'

def digitValue (b : UInt8) : Nat := (b - byte '0').toNat

def hexValue? (b : UInt8) : Option Nat :=
  if isDigit b then some (digitValue b)
  else if byte 'a' ≤ b && b ≤ byte 'f' then some ((b - byte 'a').toNat + 10)
  else if byte 'A' ≤ b && b ≤ byte 'F' then some ((b - byte 'A').toNat + 10)
  else none

end ContentStream
