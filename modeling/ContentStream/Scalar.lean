set_option autoImplicit false

/-!
# Coordinates

The arithmetic that geometry, colour and text are computed in. Everything downstream is written
over `Scalar K`, so one definition both runs on binary floating point and can be reasoned about
in an exact ordered field. Comparisons are those of the number system: on doubles `==` identifies
the two zeros and nothing compares with a NaN.
-/
namespace ContentStream

/-- A number system for page geometry. `truncate` is the integer part of a non-negative number
and zero for anything else that has none. -/
class Scalar (K : Type) extends Zero K, One K, Add K, Sub K, Mul K, Div K, Neg K, NatCast K,
    OfScientific K, LT K, LE K, BEq K where
  [decLt : DecidableLT K]
  [decLe : DecidableLE K]
  isFinite : K → Bool
  /-- The largest number that counts as finite. -/
  maxFinite : K
  truncate : K → Nat
  sqrt : K → K
  hypot : K → K → K
  pow : K → K → K

attribute [reducible, instance] Scalar.decLt Scalar.decLe

namespace Scalar
variable {K : Type} [Scalar K]

/-- A number that differs from itself stands for no quantity. -/
def isNaN (x : K) : Bool := !(x == x)

/-- The smaller operand; one that stands for no quantity is passed over. -/
protected def min (x y : K) : K := if isNaN x then y else if y < x then y else x

protected def max (x y : K) : K := if isNaN x then y else if x < y then y else x

protected def abs (x : K) : K := if x < 0 then -x else x

def clamp (x lo hi : K) : K :=
  let y := if x < lo then lo else x
  if hi < y then hi else y

/-- Restricts to the unit interval; no quantity counts as zero. -/
def clampUnit (x : K) : K := if isNaN x then 0 else clamp x 0 1

/-- Minus one, one, or the number itself where it has no sign. -/
def signum (x : K) : K := if x < 0 then -1 else if 0 < x then 1 else x

def approxEq (x y tolerance : K) : Bool := decide (Scalar.abs (x - y) < tolerance)

def tolerance : K := 1e-9

/-- The spacing of doubles at one, `2 ^ -52`. -/
def unitSpacing : K := 1 / ((4503599627370496 : Nat) : K)

/-- The nearest natural number, a half going up; zero for negative numbers. -/
def round (x : K) : Nat :=
  let n := truncate x
  if (0.5 : K) ≤ x - (n : K) then n + 1 else n

/-- The integer part, held to the range of 64-bit words. -/
def toInt (x : K) : Int :=
  if x < 0 then -((Nat.min (truncate (-x)) 0x8000000000000000 : Nat) : Int)
  else ((Nat.min (truncate x) 0x7FFFFFFFFFFFFFFF : Nat) : Int)

def toWord (x : K) : Nat := Nat.min (truncate x) (UInt32.size - 1)

def toByte (x : K) : UInt8 := UInt8.ofNat (round (clampUnit x * ((255 : Nat) : K)))

def ofByte (b : UInt8) : K := (b.toNat : K) / ((255 : Nat) : K)

end Scalar
end ContentStream
