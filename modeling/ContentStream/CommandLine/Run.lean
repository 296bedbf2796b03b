import ContentStream.CommandLine.Arguments
import ContentStream.Exchange.Decode
import ContentStream.Exchange.Encode
import ContentStream.Interpreter.Abort
import ContentStream.Json.Reader
import ContentStream.Json.Writer

set_option autoImplicit false

namespace ContentStream.CommandLine

inductive FileContent
  | missing
  /-- The file can be opened and not be read. -/
  | unreadable
  | bytes (content : List UInt8)

structure Files (m : Type → Type) where
  read : String → m FileContent
  create : String → m Bool
  write : String → String → m Unit

inductive RunError
  | usage (cause : UsageError)
  | opening (file : String)
  | parsing (file : String)
  | creating (file : String)
  | reading (file : String)
  | interpreting (file : String) (cause : Fault Float)
  | aborted

namespace RunError

def message? : RunError → Option String
  | usage cause => cause.message?
  | opening file => some ("opening " ++ file)
  | parsing file => some ("parsing resources from " ++ file)
  | creating file => some ("creating output file " ++ file)
  | reading file => some ("reading " ++ file)
  | interpreting file _ => some ("interpreting " ++ file)
  | aborted => none

def exitCode : RunError → Nat
  | usage _ => 2
  | aborted => 101
  | _ => 1

end RunError

/-- The resources that the content of a file spells. What belongs to no field is passed over. -/
def parseResources? (content : List UInt8) : Option (Resources Float) :=
  (Json.ofBytes? .selective content).bind (Exchange.resources? .file)

def document (file : String) (elements : List (Element Float)) : Json :=
  .object [("elements", Exchange.ofList Exchange.ofElement elements), ("file", .string file)]

variable {m : Type → Type} [Monad m]

def loadResources (files : Files m) : Option String → ExceptT RunError m (Resources Float)
  | none => return .empty
  | some file => do
    match ← files.read file with
    | .missing => throw (.opening file)
    | .unreadable => throw (.parsing file)
    | .bytes content =>
      match parseResources? content with
      | none => throw (.parsing file)
      | some resources => return resources

def interpretFile (files : Files m) (resources : Resources Float) (options : Options Float)
    (file : String) : ExceptT RunError m Json := do
  match ← files.read file with
  | .bytes content =>
    match interpretContent? resources options content with
    | some (.ok elements) => return document file elements
    | some (.error fault) => throw (.interpreting file fault)
    | none => throw .aborted
  | _ => throw (.reading file)

def run (files : Files m) (arguments : List String) : ExceptT RunError m (Option String) := do
  let a ← match Arguments.parse arguments with
    | .ok a => pure a
    | .error cause => throw (.usage cause)
  let resources ← loadResources files a.resources
  let toStandardOutput := a.outfile == "-"
  if !toStandardOutput then
    if !(← files.create a.outfile) then throw (.creating a.outfile)
  let documents ← a.contents.mapM (interpretFile files resources a.options)
  let text := (Json.array documents).pretty ++ "\n"
  if toStandardOutput then return some text
  files.write a.outfile text
  return none

end ContentStream.CommandLine
