import ContentStream.Scalar

set_option autoImplicit false

namespace ContentStream
namespace Double

/-- A square root of `a² + b²` for `b ≤ a`, both far from overflow and underflow, with one
correction step for the rounding of the squares. -/
def correctedHypot (a b : Float) : Float :=
  let h := (a * a + b * b).sqrt
  if h ≤ 2.0 * b then
    let delta := h - b
    let t1 := a * (2.0 * delta - a)
    let t2 := (delta - 2.0 * (a - b)) * delta
    h - (t1 + t2) / (2.0 * h)
  else
    let delta := h - a
    let t1 := 2.0 * delta * (a - 2.0 * b)
    let t2 := (4.0 * delta - b) * b + delta * delta
    h - (t1 + t2) / (2.0 * h)

/-- The length of a vector without intermediate overflow or underflow. An infinite component
gives an infinite length, whatever the other is. -/
def hypot (x y : Float) : Float :=
  if x.isInf || y.isInf then 1.0 / 0.0
  else if x.isNaN || y.isNaN then x + y
  else
    let x := x.abs
    let y := y.abs
    let a := if x < y then y else x
    let b := if x < y then x else y
    let up := Float.ofBits 0x6570000000000000      -- 2 ^ 600
    let down := Float.ofBits 0x1A70000000000000    -- 2 ^ -600
    let negligible := Float.ofBits 0x3C90000000000000  -- 2 ^ -54
    if b ≤ a * negligible then a + b
    else if Float.ofBits 0x5FE0000000000000 < a then   -- 2 ^ 511
      correctedHypot (a * down) (b * down) * up
    else if b < Float.ofBits 0x2340000000000000 then   -- 2 ^ -459
      correctedHypot (a * up) (b * up) * down
    else correctedHypot a b

def maxFinite : Float := Float.ofBits 0x7FEFFFFFFFFFFFFF

end Double

instance : Scalar Float where
  zero := 0.0
  one := 1.0
  natCast := Float.ofNat
  isFinite := Float.isFinite
  maxFinite := Double.maxFinite
  truncate x := x.toUInt64.toNat
  sqrt := Float.sqrt
  hypot := Double.hypot
  pow := Float.pow

end ContentStream
