set_option autoImplicit false

namespace ContentStream.Json

inductive Symbol
  | byte (b : UInt8)
  | escape (unit : Nat)
  deriving DecidableEq

def hexDigit? (c : Char) : Option Nat :=
  if '0' ≤ c ∧ c ≤ '9' then some (c.toNat - 48)
  else if 'a' ≤ c ∧ c ≤ 'f' then some (c.toNat - 87)
  else if 'A' ≤ c ∧ c ≤ 'F' then some (c.toNat - 55)
  else none

def unit? (a b c d : Char) : Option Nat :=
  ([a, b, c, d].mapM hexDigit?).map fun ds => ds.foldl (fun n d => n * 16 + d) 0

def escapedLetter? (c : Char) : Option Nat :=
  if c == '"' || c == '\\' || c == '/' then some c.toNat
  else if c == 'b' then some 8
  else if c == 'f' then some 12
  else if c == 'n' then some 10
  else if c == 'r' then some 13
  else if c == 't' then some 9
  else none

/-- The rest of a spelling up to its closing quote, and what follows that; `acc` holds the symbols
before, last first. Each character stands for one byte. -/
def readSpelling (acc : List Symbol) : List Char → Option (List Symbol × List Char)
  | [] => none
  | '"' :: rest => some (acc.reverse, rest)
  | '\\' :: 'u' :: a :: b :: c :: d :: rest =>
    match unit? a b c d with
    | some unit => readSpelling (.escape unit :: acc) rest
    | none => none
  | '\\' :: c :: rest =>
    match escapedLetter? c with
    | some unit => readSpelling (.escape unit :: acc) rest
    | none => none
  | c :: rest =>
    if c.toNat < 32 || c == '\\' then none
    else readSpelling (.byte (UInt8.ofNat c.toNat) :: acc) rest

def isHighSurrogate (unit : Nat) : Bool := decide (0xD800 ≤ unit) && decide (unit < 0xDC00)

def isLowSurrogate (unit : Nat) : Bool := decide (0xDC00 ≤ unit) && decide (unit < 0xE000)

def bytesFrom (acc : List UInt8) : List Symbol → Option (List UInt8)
  | [] => some acc.reverse
  | .byte b :: rest => bytesFrom (b :: acc) rest
  | .escape high :: .escape low :: rest =>
    if isHighSurrogate high then
      if isLowSurrogate low then
        let c := Char.ofNat (0x10000 + (high - 0xD800) * 0x400 + (low - 0xDC00))
        bytesFrom ((String.utf8EncodeChar c).reverse ++ acc) rest
      else none
    else if isLowSurrogate high then none
    else bytesFrom ((String.utf8EncodeChar (Char.ofNat high)).reverse ++ acc) (.escape low :: rest)
  | .escape unit :: rest =>
    if isHighSurrogate unit || isLowSurrogate unit then none
    else bytesFrom ((String.utf8EncodeChar (Char.ofNat unit)).reverse ++ acc) rest

def text? (symbols : List Symbol) : Option String :=
  (bytesFrom [] symbols).bind fun bytes => String.fromUTF8? ⟨bytes.toArray⟩

def isPlain (symbols : List Symbol) : Bool :=
  symbols.all fun
    | .byte _ => true
    | .escape _ => false

end ContentStream.Json
