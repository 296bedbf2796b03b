set_option autoImplicit false

/-!
# Decimal notation of doubles

Doubles are written from their exact value, rounded to a number of significant digits with ties
to the even digit, and read from a decimal fraction of any length.
-/
namespace ContentStream

/-- The quotient of two natural numbers rounded to the nearest, a tie going to the even one. -/
def roundQuotient (num den : Nat) : Nat :=
  let q := num / den
  let r := num % den
  if den < 2 * r ∨ (2 * r = den ∧ q % 2 = 1) then q + 1 else q

/-- The decimal number `digits × 10 ^ (exponent - places)`, where `digits` has one digit before
its `places` further ones. -/
structure Decimal where
  digits : Nat
  places : Nat
  exponent : Int
  deriving DecidableEq

namespace Decimal

/-- The largest `e` for which `10 ^ e` is no more than a positive quotient. -/
def magnitude (num den : Nat) : Int :=
  let guess : Int := (Nat.toDigits 10 num).length - (Nat.toDigits 10 den).length
  let reached :=
    if 0 ≤ guess then den * Nat.pow 10 guess.toNat ≤ num
    else den ≤ num * Nat.pow 10 (-guess).toNat
  if reached then guess else guess - 1

def ofDigits (digits places : Nat) (exponent : Int) : Decimal :=
  if digits = Nat.pow 10 (places + 1) then ⟨Nat.pow 10 places, places, exponent + 1⟩
  else ⟨digits, places, exponent⟩

def ofQuotient (places num den : Nat) : Decimal :=
  let e := magnitude num den
  let scale := (places : Int) - e
  let digits :=
    if 0 ≤ scale then roundQuotient (num * Nat.pow 10 scale.toNat) den
    else roundQuotient num (den * Nat.pow 10 (-scale).toNat)
  ofDigits digits places e

def quotientOf (x : Float) : Nat × Nat :=
  let bits := x.toBits.toNat
  let unit : Nat := 0x10000000000000
  let mantissa : Nat := bits % unit
  let exponent : Nat := bits / unit % 2048
  let m := if exponent = 0 then mantissa else mantissa + unit
  let e : Int := if exponent = 0 then -1074 else (exponent : Int) - 1075
  if 0 ≤ e then (m * Nat.pow 2 e.toNat, 1) else (m, Nat.pow 2 (-e).toNat)

def ofDouble (places : Nat) (x : Float) : Decimal :=
  let (num, den) := quotientOf x
  ofQuotient places num den

def trim : Nat → Decimal → Decimal
  | 0, d => d
  | n + 1, d =>
    if d.places ≠ 0 ∧ d.digits % 10 = 0 then trim n ⟨d.digits / 10, d.places - 1, d.exponent⟩
    else d

def trimmed (d : Decimal) : Decimal := trim d.places d

def toDouble (mantissa : Nat) (exponent : Int) : Float :=
  let size := exponent + (Nat.toDigits 10 mantissa).length
  if mantissa = 0 ∨ size < -400 then 0.0
  else if 400 < size then 1.0 / 0.0
  else Float.ofScientific mantissa (exponent < 0) exponent.natAbs

def readsAs (x : Float) (d : Decimal) : Bool :=
  toDouble d.digits (d.exponent - (d.places : Int)) == x

/-- The nearest decimal number to a positive finite double with the given places, and the next
one. Above a power of two doubles lie further apart than below it, so the next number may read
back where the nearest, being smaller, does not. -/
def candidates (x : Float) (places : Nat) : List Decimal :=
  let d := ofDouble places x
  [d, ofDigits (d.digits + 1) d.places d.exponent]

/-- The fewest significant digits that read back as a positive finite double. -/
def shortest (x : Float) : Decimal :=
  let all := (List.range 17).flatMap (candidates x)
  ((all.find? (readsAs x)).getD (ofDouble 16 x)).trimmed

def mantissaText (d : Decimal) : String :=
  let ds := Nat.toDigits 10 d.digits
  if d.places = 0 then String.ofList ds
  else String.ofList (ds.take 1) ++ "." ++ String.ofList (ds.drop 1)

def scientific (d : Decimal) : String := d.mantissaText ++ "e" ++ toString d.exponent

def positional (d : Decimal) : String :=
  let ds := Nat.toDigits 10 d.digits
  if d.exponent < 0 then
    "0." ++ String.ofList (List.replicate (d.exponent.natAbs - 1) '0' ++ ds)
  else
    let n := d.exponent.natAbs + 1
    let whole := ds.take n ++ List.replicate (n - ds.length) '0'
    let fraction := if ds.length ≤ n then ['0'] else ds.drop n
    String.ofList (whole ++ '.' :: fraction)

def isPositional (e : Int) : Bool := decide (-5 ≤ e) && decide (e < 16)

def isNegative (x : Float) : Bool := x.toBits >>> 63 == 1

def text (x : Float) : String :=
  if x.isNaN then "NaN"
  else
    let sign := if isNegative x then "-" else ""
    let x := x.abs
    if x.isInf then sign ++ "inf"
    else if x == 0.0 then sign ++ "0.0"
    else
      let d := shortest x
      sign ++ if isPositional d.exponent then d.positional else d.scientific

def digitsValue (value : Nat) (ds : List Char) : Nat :=
  ds.foldl (fun v c => v * 10 + (c.toNat - 48)) value

/-- An exponent mark with a sign or none and digits, at the end of a numeral; zero for no mark. -/
def exponent? : List Char → Option Int
  | [] => some 0
  | mark :: cs =>
    if mark = 'e' ∨ mark = 'E' then
      let (negative, ds) := match cs with
        | '-' :: ds => (true, ds)
        | '+' :: ds => (false, ds)
        | ds => (false, ds)
      if ds.isEmpty || !ds.all Char.isDigit then none
      else
        let n : Int := digitsValue 0 ds
        some (if negative then -n else n)
    else none

/-- The double that an unsigned numeral spells: digits with a point before, between or after them
or none, and perhaps an exponent. -/
def unsigned? (cs : List Char) : Option Float :=
  let whole := cs.takeWhile Char.isDigit
  let rest := cs.dropWhile Char.isDigit
  let (fraction, rest) := match rest with
    | '.' :: rest => (rest.takeWhile Char.isDigit, rest.dropWhile Char.isDigit)
    | rest => ([], rest)
  if whole.isEmpty && fraction.isEmpty then none
  else
    (exponent? rest).map fun e =>
      toDouble (digitsValue (digitsValue 0 whole) fraction) (e - (fraction.length : Int))

/-- The double that a text spells: a numeral, `inf`, `infinity` or `nan` in any case, with a sign
or without. -/
def parse? (text : String) : Option Float :=
  let cs := text.toList
  let (negative, cs) := match cs with
    | '-' :: cs => (true, cs)
    | '+' :: cs => (false, cs)
    | cs => (false, cs)
  let word := String.ofList (cs.map Char.toLower)
  let magnitude :=
    if word == "inf" || word == "infinity" then some (1.0 / 0.0)
    else if word == "nan" then some (0.0 / 0.0)
    else unsigned? cs
  magnitude.map fun x => if negative then -x else x

end Decimal
end ContentStream
