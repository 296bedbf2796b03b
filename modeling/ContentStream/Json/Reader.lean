import ContentStream.Json
import ContentStream.Json.Numeral
import ContentStream.Json.Spelling
import ContentStream.Text.Utf8

set_option autoImplicit false

namespace ContentStream.Json

structure Reading where
  magnitude : Numeral → Float
  /-- Whether values that cannot be represented are kept as `unread`. -/
  isSelective : Bool

namespace Reading

/-- Every value is read, and numbers are the nearest doubles. -/
def whole : Reading := ⟨Numeral.nearest, false⟩

/-- Values may be passed over, and numbers are read in one pass. -/
def selective : Reading := ⟨Numeral.scaled, true⟩

def orUnread (reading : Reading) : Option Json → Option Json
  | some v => some v
  | none => if reading.isSelective then some unread else none

def nested (reading : Reading) (depth : Nat) (v : Option Json) : Option Json :=
  reading.orUnread (if depth = 0 then none else v)

end Reading

def isSpace (c : Char) : Bool := c == ' ' || c == '\n' || c == '\t' || c == '\r'

def skipSpace (cs : List Char) : List Char := cs.dropWhile isSpace

variable (reading : Reading)

def ofNumeral? (x : Numeral) : Option Json :=
  match x.word? with
  | some n => some (int n)
  | none =>
    let m := reading.magnitude x
    if m.isInf then none else some (real (if x.negative then -m else m))

def ofMembers? (members : List (List Symbol × Json)) : Option Json :=
  (members.mapM fun (m : List Symbol × Json) => (text? m.1).map fun name => (name, m.2)).map
    fun named => object named (members.all fun m => isPlain m.1)

mutual

/-- A value and what follows it, with `depth` levels of nesting to go. The first number bounds
the steps. -/
def readValue : Nat → Nat → List Char → Option (Json × List Char)
  | 0, _, _ => none
  | n + 1, depth, cs =>
    match skipSpace cs with
    | 'n' :: 'u' :: 'l' :: 'l' :: rest => some (null, rest)
    | 't' :: 'r' :: 'u' :: 'e' :: rest => some (bool true, rest)
    | 'f' :: 'a' :: 'l' :: 's' :: 'e' :: rest => some (bool false, rest)
    | '"' :: rest => do
      let (symbols, rest) ← readSpelling [] rest
      return (← reading.orUnread ((text? symbols).map string), rest)
    | '[' :: rest => do
      guard (0 < depth ∨ reading.isSelective)
      let (items, rest) ←
        match skipSpace rest with
        | ']' :: rest => some ([], rest)
        | rest => readItems n (depth - 1) [] rest
      return (← reading.nested depth (some (array items)), rest)
    | '{' :: rest => do
      guard (0 < depth ∨ reading.isSelective)
      let (members, rest) ←
        match skipSpace rest with
        | '}' :: rest => some ([], rest)
        | rest => readMembers n (depth - 1) [] rest
      return (← reading.nested depth (ofMembers? members), rest)
    | cs => do
      let (x, rest) ← Numeral.read? cs
      return (← reading.orUnread (ofNumeral? reading x), rest)

def readItems : Nat → Nat → List Json → List Char → Option (List Json × List Char)
  | 0, _, _, _ => none
  | n + 1, depth, acc, cs => do
    let (v, rest) ← readValue n depth cs
    match skipSpace rest with
    | ',' :: rest => readItems n depth (v :: acc) rest
    | ']' :: rest => some ((v :: acc).reverse, rest)
    | _ => none

def readMembers : Nat → Nat → List (List Symbol × Json) → List Char →
    Option (List (List Symbol × Json) × List Char)
  | 0, _, _, _ => none
  | n + 1, depth, acc, cs => do
    let '"' :: rest := skipSpace cs | none
    let (name, rest) ← readSpelling [] rest
    let ':' :: rest := skipSpace rest | none
    let (v, rest) ← readValue n depth rest
    match skipSpace rest with
    | ',' :: rest => readMembers n depth ((name, v) :: acc) rest
    | '}' :: rest => some (((name, v) :: acc).reverse, rest)
    | _ => none

end

def maxDepth : Nat := 127

def ofBytes? (bytes : List UInt8) : Option Json :=
  let cs := bytes.map fun b => Char.ofNat b.toNat
  match readValue reading (2 * cs.length + 2) maxDepth cs with
  | some (v, rest) => if (skipSpace rest).isEmpty then some v else none
  | none => none

def parse? (text : String) : Option Json := ofBytes? .whole (Utf8.encode text)

end ContentStream.Json
