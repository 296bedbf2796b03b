set_option autoImplicit false

namespace ContentStream

inductive Json
  | null
  | bool (b : Bool)
  | int (n : Int)
  | real (x : Float)
  | string (text : String)
  | array (items : List Json)
  /-- An object; `plain` tells whether its names are written without escapes. -/
  | object (members : List (String × Json)) (plain : Bool := true)
  /-- A value that cannot be represented. -/
  | unread
  deriving Inhabited

namespace Json

def member? (name : String) : Json → Option Json
  | object members _ => members.lookup name
  | _ => none

def hasPlainNames : Json → Bool
  | object _ plain => plain
  | _ => true

def lastValues {α : Type} (members : List (String × α)) : List (String × α) :=
  members.foldl (fun acc (k, v) =>
    if acc.any (·.1 == k) then acc.map fun (k', v') => if k' == k then (k, v) else (k', v')
    else acc ++ [(k, v)]) []

mutual

def depth : Json → Nat
  | array items => depthOfItems items + 1
  | object members _ => depthOfMembers members + 1
  | _ => 1

def depthOfItems : List Json → Nat
  | [] => 0
  | v :: vs => max (depth v) (depthOfItems vs)

def depthOfMembers : List (String × Json) → Nat
  | [] => 0
  | (_, v) :: ms => max (depth v) (depthOfMembers ms)

end

end Json
end ContentStream
