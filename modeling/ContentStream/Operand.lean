import ContentStream.Scalar

set_option autoImplicit false

namespace ContentStream

inductive Operand (K : Type)
  | number (value : K)
  | string (bytes : List UInt8)
  | name (text : String)
  | array (items : List (Operand K))

namespace Operand
variable {K : Type}

def number? : Operand K → Option K
  | number v => some v
  | _ => none

/-- An operand stack, last operand first. -/
abbrev Stack (K : Type) := List (Operand K)

def popAs {α : Type} (read : Operand K → Option α) : Stack K → Option α × Stack K
  | [] => (none, [])
  | x :: s => (read x, s)

def popString : Stack K → Option (List UInt8) × Stack K :=
  popAs fun | string bytes => some bytes | _ => none

def popName : Stack K → Option String × Stack K :=
  popAs fun | name text => some text | _ => none

def popArray : Stack K → Option (List (Operand K)) × Stack K :=
  popAs fun | array items => some items | _ => none

def popNumberArray : Stack K → Option (List K) × Stack K :=
  popAs fun | array items => some (items.filterMap number?) | _ => none

def takeAllNumbers (acc : List K) : Stack K → List K × Stack K
  | number v :: s => takeAllNumbers (v :: acc) s
  | s => (acc, s)

/-- The numbers at the end of the stack, finite or not, in the order of writing. -/
def drainNumbers (s : Stack K) : List K × Stack K := takeAllNumbers [] s

variable [Scalar K]

def popNumber : Stack K → Option K × Stack K :=
  popAs fun | number v => if Scalar.isFinite v then some v else none | _ => none

def popInt (s : Stack K) : Option Int × Stack K :=
  ((popNumber s).1.map Scalar.toInt, (popNumber s).2)

def takeNumbers : Nat → List K → Stack K → Option (List K) × Stack K
  | 0, acc, s => (some acc, s)
  | n + 1, acc, s =>
    match popNumber s with
    | (some v, s) => takeNumbers n (v :: acc) s
    | (none, s) => (none, s)

/-- The last `n` operands in the order of writing, if all are finite numbers. Nothing is taken
where there are fewer. -/
def popNumbers (n : Nat) (s : Stack K) : Option (List K) × Stack K :=
  if s.length < n then (none, s) else takeNumbers n [] s

end Operand
end ContentStream
