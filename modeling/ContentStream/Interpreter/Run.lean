import ContentStream.Interpreter.Step

set_option autoImplicit false

/-!
# Runs

Token after token, until the tokens or a fatal fault come to an end. Forms and soft mask groups
nest no deeper than the options allow, so a bound on the nesting is known before a run begins.
-/
namespace ContentStream
variable {K : Type} [Scalar K]

namespace Interpreter

def executeWith (run : Run K) (options : Options K) : Run K
  | [], s => .ok s
  | t :: ts, s =>
    let r := s.step run options t
    if r.fault.isSome then r else executeWith run options ts r.state

/-- Executes tokens with nested content to a depth of `levels`. -/
def executeWithin (options : Options K) : Nat → Run K
  | 0 => executeWith (fun _ s => .ok s) options
  | levels + 1 => executeWith (executeWithin options levels) options

/-- How deep content can nest from here: what is left of the forms, and the forms of all the soft
mask groups that are left. -/
def nestingBound (options : Options K) (s : Interpreter K) : Nat :=
  (options.maxMaskDepth - s.maskDepth) * (options.maxFormDepth + 1) +
    (options.maxFormDepth - s.formStack.length)

def execute (options : Options K) : Run K := fun ts s =>
  executeWithin options (s.nestingBound options) ts s

end Interpreter

def SoftMaskGroup.evaluate (options : Options K) (g : SoftMaskGroup K) (ctm : Transform K)
    (depth : Nat) : Except (Fault K) (MaskValue K) :=
  g.evaluateWith (Interpreter.execute options) options ctm depth

def interpret (resources : Resources K) (options : Options K) (ts : List (Token K)) :
    Except (Fault K) (List (Element K)) :=
  let r := Interpreter.execute options ts (.ofPage resources options)
  match r.fault with
  | some fault => .error fault
  | none => .ok r.state.finish

def interpretContent (resources : Resources K) (options : Options K) (content : List UInt8) :
    Except (Fault K) (List (Element K)) :=
  interpret resources options (tokenize content)

end ContentStream
