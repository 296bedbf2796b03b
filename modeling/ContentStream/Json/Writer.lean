import ContentStream.Decimal
import ContentStream.Json

set_option autoImplicit false

namespace ContentStream.Json

def hexDigit (n : Nat) : Char := if n < 10 then Char.ofNat (48 + n) else Char.ofNat (87 + n)

def escape (c : Char) : String :=
  if c == '"' then "\\\""
  else if c == '\\' then "\\\\"
  else if c == '\n' then "\\n"
  else if c == '\r' then "\\r"
  else if c == '\t' then "\\t"
  else if c.toNat == 8 then "\\b"
  else if c.toNat == 12 then "\\f"
  else if c.toNat < 32 then
    String.ofList ['\\', 'u', '0', '0', hexDigit (c.toNat / 16), hexDigit (c.toNat % 16)]
  else String.singleton c

def quote (text : String) : String :=
  text.foldl (fun acc c => acc ++ escape c) "\"" ++ "\""

def realText (x : Float) : String := if x.isFinite then Decimal.text x else "null"

def lineBreak (indent : Option Nat) : String :=
  match indent with
  | none => ""
  | some n => "\n" ++ String.ofList (List.replicate (2 * n) ' ')

mutual

/-- Writes a value after `acc`; `indent` is the level of indentation, if lines are broken. -/
def write (indent : Option Nat) (acc : String) : Json → String
  | null | unread => acc ++ "null"
  | bool b => acc ++ if b then "true" else "false"
  | int n => acc ++ toString n
  | real x => acc ++ realText x
  | string text => acc ++ quote text
  | array [] => acc ++ "[]"
  | array (v :: vs) =>
    let inner := indent.map (· + 1)
    writeItems inner (write inner (acc ++ "[" ++ lineBreak inner) v) vs ++ lineBreak indent ++ "]"
  | object [] _ => acc ++ "\x7b\x7d"
  | object ((k, v) :: ms) _ =>
    let inner := indent.map (· + 1)
    let colon := if indent.isSome then ": " else ":"
    writeMembers inner
      (write inner (acc ++ "\x7b" ++ lineBreak inner ++ quote k ++ colon) v) ms ++
      lineBreak indent ++ "\x7d"

def writeItems (indent : Option Nat) (acc : String) : List Json → String
  | [] => acc
  | v :: vs => writeItems indent (write indent (acc ++ "," ++ lineBreak indent) v) vs

def writeMembers (indent : Option Nat) (acc : String) : List (String × Json) → String
  | [] => acc
  | (k, v) :: ms =>
    let colon := if indent.isSome then ": " else ":"
    writeMembers indent (write indent (acc ++ "," ++ lineBreak indent ++ quote k ++ colon) v) ms

end

def compact (v : Json) : String := write none "" v

def pretty (v : Json) : String := write (some 0) "" v

end ContentStream.Json
