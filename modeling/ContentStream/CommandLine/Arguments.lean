import ContentStream.Decimal
import ContentStream.Options
import ContentStream.Scalar.Double
import ContentStream.Text.Blank

set_option autoImplicit false

namespace ContentStream.CommandLine

inductive Flag
  | resources
  | clipBudget
  | maskBudget
  | shadingBudget
  | maxMaskDepth
  | pageBBox
  | outfile
  /-- Asks for messages about a run, of which there are none. -/
  | debug
  deriving DecidableEq

namespace Flag

def ofLong? (name : String) : Option Flag :=
  List.lookup name [("resources", resources), ("clip-budget", clipBudget),
    ("mask-budget", maskBudget), ("shading-budget", shadingBudget),
    ("max-mask-depth", maxMaskDepth), ("page-bbox", pageBBox), ("outfile", outfile),
    ("debug", debug)]

def ofLetter? : Char → Option Flag
  | 'r' => some resources
  | 'o' => some outfile
  | 'd' => some debug
  | _ => none

def takesValue : Flag → Bool
  | debug => false
  | _ => true

end Flag

inductive UsageError
  | unknownFlag (text : String)
  | missingValue (flag : Flag)
  | unexpectedValue (flag : Flag) (text : String)
  | repeatedFlag (flag : Flag)
  | notANumber (flag : Flag) (text : String)
  | emptyName
  | noContent
  /-- A page box of other than four numbers. -/
  | boxSize (count : Nat)
  | boxNumber (text : String)
  deriving DecidableEq

def UsageError.message? : UsageError → Option String
  | boxSize count => some ("expected 4 values, got " ++ toString count)
  | boxNumber text => some ("invalid number: " ++ text)
  | _ => none

structure Arguments where
  contents : List String
  resources : Option String
  options : Options Float
  /-- The file for the output; a hyphen stands for the standard output. -/
  outfile : String

def Arguments.standard : Arguments where
  contents := []
  resources := none
  options := .standard
  outfile := "-"

def digits? (cs : List Char) : Option Nat :=
  if cs.isEmpty || !cs.all Char.isDigit then none else some (Decimal.digitsValue 0 cs)

/-- A number below `2 ^ 32`, with a sign or without. -/
def budget? (text : String) : Option Nat :=
  let n? := match text.toList with
    | '-' :: cs => (digits? cs).filter (· == 0)
    | '+' :: cs => digits? cs
    | cs => digits? cs
  n?.filter fun n => decide (n < UInt32.size)

/-- A number below `2 ^ 64`, with a plus sign or without. -/
def limit? (text : String) : Option Nat :=
  let n? := match text.toList with
    | '+' :: cs => digits? cs
    | cs => digits? cs
  n?.filter fun n => decide (n < UInt64.size)

def boxNumber? (part : String) : Except UsageError Float :=
  match Decimal.parse? (Text.trim part) with
  | some x => .ok x
  | none => .error (.boxNumber part)

def box? (text : String) : Except UsageError (Rect Float) := do
  let values ← (text.splitOn ",").mapM boxNumber?
  match values with
  | [x0, y0, x1, y1] => return ⟨x0, y0, x1, y1⟩
  | _ => throw (.boxSize values.length)

def fileName? (text : String) : Except UsageError String :=
  if text.isEmpty then .error .emptyName else .ok text

namespace Arguments

def set (a : Arguments) (flag : Flag) (text : String) : Except UsageError Arguments :=
  let number := fun (n? : Option Nat) (set : Nat → Options Float) =>
    match n? with
    | some n => Except.ok { a with options := set n }
    | none => .error (.notANumber flag text)
  match flag with
  | .resources => return { a with resources := some (← fileName? text) }
  | .clipBudget => number (budget? text) fun n => { a.options with clipBudget := n }
  | .maskBudget => number (budget? text) fun n => { a.options with softMaskBudget := n }
  | .shadingBudget => number (budget? text) fun n => { a.options with shadingBudget := n }
  | .maxMaskDepth => number (limit? text) fun n => { a.options with maxMaskDepth := n }
  | .pageBBox => return { a with options := { a.options with pageBBox := some (← box? text) } }
  | .outfile => .ok { a with outfile := text }
  | .debug => .error (.unexpectedValue flag text)

end Arguments

structure Reading where
  arguments : Arguments
  /-- The flags that have been taken in. -/
  seen : List Flag
  /-- A flag that has not been taken in yet, and its value once that has been read. It is taken in
  only with the next flag or file name, or at the end. -/
  pending : Option (Flag × Option String)

namespace Reading

def start : Reading := ⟨.standard, [], none⟩

def see (r : Reading) (flag : Flag) : Except UsageError Reading :=
  if flag ∈ r.seen then .error (.repeatedFlag flag) else .ok { r with seen := flag :: r.seen }

def take (r : Reading) (flag : Flag) (text : String) : Except UsageError Reading := do
  let r ← r.see flag
  return { r with arguments := ← r.arguments.set flag text }

def settle (r : Reading) : Except UsageError Reading :=
  match r.pending with
  | none => .ok r
  | some (flag, none) => .error (.missingValue flag)
  | some (flag, some text) => { r with pending := none }.take flag text

/-- A flag whose value is still to come or is in the same argument. -/
def valueFlag (r : Reading) (flag : Flag) (value : Option String) : Except UsageError Reading := do
  let r ← r.settle
  match value with
  | some text => r.take flag text
  | none => return { r with pending := some (flag, none) }

def plainFlag (r : Reading) (flag : Flag) : Except UsageError Reading := do
  (← r.settle).see flag

def long (r : Reading) (name : String) (value : Option String) : Except UsageError Reading :=
  match Flag.ofLong? name, value with
  | none, _ => .error (.unknownFlag name)
  | some flag, value =>
    if flag.takesValue then r.valueFlag flag value
    else match value with
      | some text => .error (.unexpectedValue flag text)
      | none => r.plainFlag flag

/-- Flags by their letters. What follows the letter of a flag with a value is that value. -/
def letters : List Char → Reading → Except UsageError Reading
  | [], r => .ok r
  | c :: cs, r =>
    match Flag.ofLetter? c with
    | none => .error (.unknownFlag (String.singleton c))
    | some flag =>
      if flag.takesValue then
        match cs with
        | [] => r.valueFlag flag none
        | '=' :: cs => r.valueFlag flag (some (String.ofList cs))
        | cs => r.valueFlag flag (some (String.ofList cs))
      else
        match r.plainFlag flag with
        | .ok r => letters cs r
        | .error e => .error e

def file (r : Reading) (text : String) : Except UsageError Reading := do
  let r ← r.settle
  let name ← fileName? text
  return { r with arguments := { r.arguments with contents := r.arguments.contents ++ [name] } }

def other (r : Reading) (text : String) : Except UsageError Reading :=
  match r.pending with
  | some (flag, none) => .ok { r with pending := some (flag, some text) }
  | _ => r.file text

def argument (r : Reading) (text : String) : Except UsageError Reading :=
  match text.toList with
  | '-' :: '-' :: cs =>
    let name := String.ofList (cs.takeWhile (· != '='))
    match cs.dropWhile (· != '=') with
    | [] => r.long name none
    | _ :: value => r.long name (some (String.ofList value))
  | '-' :: c :: cs => letters (c :: cs) r
  | _ => r.other text

def all : List String → Reading → Except UsageError Reading
  | [], r => .ok r
  | text :: rest, r =>
    if text == "--" then rest.foldlM file r
    else
      match r.argument text with
      | .ok r => all rest r
      | .error e => .error e

end Reading

def Arguments.parse (texts : List String) : Except UsageError Arguments := do
  let r ← (← Reading.start.all texts).settle
  if r.arguments.contents.isEmpty then throw .noContent
  return r.arguments

end ContentStream.CommandLine
