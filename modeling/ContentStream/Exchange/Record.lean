import ContentStream.Json

set_option autoImplicit false

/-!
# Records and variants

How values of the library are laid out in JSON: a record is an object with a member for each
field, or an array of the fields in order; one of several alternatives is its name alone or an
object with its name as the only member.
-/
namespace ContentStream.Exchange

/-- Which ways of laying out values are allowed besides the one that is always read. -/
structure Layout where
  /-- Whether the fields of an alternative may be given in order and without names. -/
  orderedAlternatives : Bool
  /-- Whether a name that is a number may be written with escapes. -/
  escapedNumbers : Bool

namespace Layout

def file : Layout := ⟨true, false⟩

def embedded : Layout := ⟨false, true⟩

end Layout

structure Record where
  fields : List (String × Json)
  /-- Whether the fields were given in order and without names. -/
  positional : Bool

namespace Record

def ofObject? (names : List String) : Json → Option Record
  | .object members _ =>
    if names.all fun name => decide ((members.filter (·.1 == name)).length ≤ 1) then
      some ⟨members, false⟩
    else none
  | _ => none

def of? (names : List String) : Json → Option Record
  | .array items =>
    if items.length ≤ names.length then some ⟨names.zip items, true⟩ else none
  | v => ofObject? names v

def ofAlternative? (layout : Layout) (names : List String) (v : Json) : Option Record :=
  if layout.orderedAlternatives then of? names v else ofObject? names v

def get? {α : Type} (r : Record) (name : String) (read : Json → Option α) : Option α :=
  (r.fields.lookup name).bind read

def getD? {α : Type} (r : Record) (name : String) (read : Json → Option α) (default : α) :
    Option α :=
  match r.fields.lookup name with
  | some v => read v
  | none => some default

end Record

def nullable? {α : Type} (read : Json → Option α) : Json → Option (Option α)
  | .null => some none
  | v => (read v).map some

namespace Record

def getOptional? {α : Type} (r : Record) (name : String) (read : Json → Option α) :
    Option (Option α) :=
  r.getD? name (nullable? read) none

/-- A field that may be null, and absent where fields are named. -/
def getNullable? {α : Type} (r : Record) (name : String) (read : Json → Option α) :
    Option (Option α) :=
  if r.positional then r.get? name (nullable? read) else r.getOptional? name read

end Record

def variant? : Json → Option (String × Option Json)
  | .string name => some (name, none)
  | .object [(name, v)] _ => some (name, some v)
  | _ => none

def plain? {α : Type} (table : List (String × α)) (v : Json) : Option α :=
  match variant? v with
  | some (name, none) | some (name, some .null) => table.lookup name
  | _ => none

def bool? : Json → Option Bool
  | .bool b => some b
  | _ => none

def string? : Json → Option String
  | .string text => some text
  | _ => none

def real? : Json → Option Float
  | .real x => some x
  | .int n => some (Float.ofInt n)
  | _ => none

def int? (lo hi : Int) : Json → Option Int
  | .int n => if lo ≤ n ∧ n ≤ hi then some n else none
  | _ => none

def word8? (v : Json) : Option UInt8 := (int? 0 255 v).map fun n => UInt8.ofNat n.toNat

def word32? (v : Json) : Option Nat := (int? 0 (UInt32.size - 1) v).map Int.toNat

def word64? (v : Json) : Option Nat := (int? 0 (UInt64.size - 1) v).map Int.toNat

def signed64? : Json → Option Int := int? Int64.minValue.toInt Int64.maxValue.toInt

def list? {α : Type} (read : Json → Option α) : Json → Option (List α)
  | .array items => items.mapM read
  | _ => none

def tuple? {α : Type} (n : Nat) (read : Json → Option α) : Json → Option (List α)
  | .array items => if items.length = n then items.mapM read else none
  | _ => none

def pair? {α : Type} (read : Json → Option α) (v : Json) : Option (α × α) :=
  match tuple? 2 read v with
  | some [x, y] => some (x, y)
  | _ => none

def bytes? : Json → Option (List UInt8) := list? word8?

/-- A table by name; a name that is given twice has its last value. -/
def table? {α : Type} (read : Json → Option α) : Json → Option (List (String × α))
  | .object members _ =>
    (members.mapM fun (m : String × Json) => (read m.2).map fun x => (m.1, x)).map
      Json.lastValues
  | _ => none

end ContentStream.Exchange
