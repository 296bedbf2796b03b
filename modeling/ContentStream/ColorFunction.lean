import ContentStream.Scalar

set_option autoImplicit false

namespace ContentStream
variable {K : Type} [Scalar K]

inductive ColorFunction (K : Type)
  /-- From `c0` to `c1` along a power of the parameter. -/
  | exponential (d0 d1 : K) (c0 c1 : List K) (exponent : K)
  /-- Several functions over parts of the domain that the bounds divide; each part is mapped to
  the interval that the function is given in `encode`. -/
  | stitching (d0 d1 : K) (functions : List (ColorFunction K)) (bounds : List K)
      (encode : List (K × K))
  /-- Linear between samples at equal distances over the domain. -/
  | sampled (d0 d1 : K) (samples : List (List K))

namespace ColorFunction

def domain : ColorFunction K → K × K
  | exponential d0 d1 .. => (d0, d1)
  | stitching d0 d1 .. => (d0, d1)
  | sampled d0 d1 _ => (d0, d1)

/-- Restricts the parameter to a domain that may be given backwards. -/
def restrict (d0 d1 t : K) : K := Scalar.clamp t (Scalar.min d0 d1) (Scalar.max d0 d1)

def interpolate (x : K) (a b : List K) : List K := List.zipWith (fun p q => p + x * (q - p)) a b

def evalExponential (c0 c1 : List K) (exponent t : K) : List K :=
  interpolate (if exponent == 1 then t else Scalar.pow t exponent) c0 c1

def evalSampled (d0 d1 : K) (samples : List (List K)) (t : K) : List K :=
  match samples with
  | [] => []
  | first :: rest =>
    if rest.isEmpty || Scalar.abs (d1 - d0) < Scalar.unitSpacing then first
    else
      let position := (t - d0) / (d1 - d0) * (rest.length : K)
      let i := Nat.min (Scalar.truncate position) (rest.length - 1)
      interpolate (position - (i : K)) (samples.getD i []) (samples.getD (i + 1) [])

def part (bounds : List K) (count : Nat) (t : K) : Nat :=
  Nat.min (bounds.findIdx fun b => decide (t < b)) (count - 1)

/-- Maps `t` from part `k` of the domain to the interval given for it. -/
def encodePart (d0 d1 : K) (bounds : List K) (encode : List (K × K)) (k : Nat) (t : K) : K :=
  let lo := if k = 0 then d0 else bounds.getD (k - 1) d0
  let hi := bounds.getD k d1
  let (e0, e1) := encode.getD k (0, 1)
  if Scalar.unitSpacing < Scalar.abs (hi - lo) then e0 + (t - lo) * (e1 - e0) / (hi - lo) else e0

mutual

def eval : ColorFunction K → K → List K
  | exponential d0 d1 c0 c1 exponent, t => evalExponential c0 c1 exponent (restrict d0 d1 t)
  | stitching d0 d1 functions bounds encode, t =>
    let t := restrict d0 d1 t
    let k := part bounds functions.length t
    evalAt functions k (encodePart d0 d1 bounds encode k t)
  | sampled d0 d1 samples, t => evalSampled d0 d1 samples (restrict d0 d1 t)
  termination_by structural f => f

def evalAt : List (ColorFunction K) → Nat → K → List K
  | [], _, _ => []
  | f :: _, 0, t => f.eval t
  | _ :: fs, k + 1, t => evalAt fs k t
  termination_by structural fs => fs

end

end ColorFunction
end ContentStream
