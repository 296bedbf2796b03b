import ContentStream.Decimal

set_option autoImplicit false

namespace ContentStream

structure Numeral where
  negative : Bool
  whole : List Char
  /-- The digits after the point; none where there is no point. -/
  fraction : List Char
  exponent : Option Int
  deriving DecidableEq

namespace Numeral

def readExponent? (cs : List Char) : Option (Int × List Char) :=
  let (negative, ds) := match cs with
    | '-' :: ds => (true, ds)
    | '+' :: ds => (false, ds)
    | ds => (false, ds)
  let digits := ds.takeWhile Char.isDigit
  let n : Int := Decimal.digitsValue 0 digits
  if digits.isEmpty then none
  else some (if negative then -n else n, ds.dropWhile Char.isDigit)

def read? (cs : List Char) : Option (Numeral × List Char) :=
  let (negative, cs) := match cs with
    | '-' :: cs => (true, cs)
    | cs => (false, cs)
  let whole := cs.takeWhile Char.isDigit
  let rest := cs.dropWhile Char.isDigit
  let (point, fraction, rest) := match rest with
    | '.' :: rest => (true, rest.takeWhile Char.isDigit, rest.dropWhile Char.isDigit)
    | rest => (false, [], rest)
  let leadingZero := whole.head? == some '0' && decide (1 < whole.length)
  if whole.isEmpty || leadingZero || point && fraction.isEmpty then none
  else
    match rest with
    | c :: after =>
      if c == 'e' || c == 'E' then
        (readExponent? after).map fun (e, rest) => (⟨negative, whole, fraction, some e⟩, rest)
      else some (⟨negative, whole, fraction, none⟩, rest)
    | [] => some (⟨negative, whole, fraction, none⟩, [])

/-- The number that a numeral without point and exponent spells, if a machine word holds it. -/
def word? (x : Numeral) : Option Int :=
  let n := Decimal.digitsValue 0 x.whole
  let fits :=
    if x.negative then n ≠ 0 ∧ n ≤ Int64.minValue.toInt.natAbs else n < UInt64.size
  if x.fraction.isEmpty && x.exponent.isNone && decide fits then
    some (if x.negative then -(n : Int) else n)
  else none

def nearest (x : Numeral) : Float :=
  Decimal.toDouble (Decimal.digitsValue (Decimal.digitsValue 0 x.whole) x.fraction)
    (x.exponent.getD 0 - (x.fraction.length : Int))

def takeDigits (word : Nat) : List Char → Nat × Nat
  | [] => (word, 0)
  | c :: cs =>
    let next := word * 10 + (c.toNat - 48)
    if next < UInt64.size then takeDigits next cs else (word, cs.length + 1)

/-- A double times a power of ten, in steps of at most 308 places. -/
def scale (x : Float) (places : Int) : Float :=
  if places.natAbs ≤ 308 then
    let power := Decimal.toDouble 1 places.natAbs
    if 0 ≤ places then x * power else x / power
  else if x == 0.0 then x
  else if 0 ≤ places then 1.0 / 0.0
  else scale (x / 1e308) (places + 308)
termination_by places.natAbs

/-- The magnitude by scaling the word of the first digits. Digits of the whole part that the word
does not hold count as zeros, and those of the fraction are dropped. -/
def scaled (x : Numeral) : Float :=
  let (word, zeros) := takeDigits 0 x.whole
  let (word, dropped) := takeDigits word x.fraction
  scale (Decimal.toDouble word 0)
    (x.exponent.getD 0 + zeros - ((x.fraction.length - dropped : Nat) : Int))

end Numeral
end ContentStream
