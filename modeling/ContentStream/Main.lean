import ContentStream.CommandLine.Run

set_option autoImplicit false

namespace ContentStream.CommandLine

def systemFiles : Files IO where
  read file := do
    match ← (IO.FS.Handle.mk file .read).toBaseIO with
    | .error _ => return .missing
    | .ok handle =>
      match ← handle.readBinToEnd.toBaseIO with
      | .error _ => return .unreadable
      | .ok content => return .bytes content.toList
  create file := do
    match ← (IO.FS.writeFile file "").toBaseIO with
    | .error _ => return false
    | .ok _ => return true
  write := fun file text => IO.FS.writeFile file text

end ContentStream.CommandLine

def main (arguments : List String) : IO UInt32 := do
  match ← (ContentStream.CommandLine.run ContentStream.CommandLine.systemFiles arguments).run with
  | .ok none => return 0
  | .ok (some text) =>
    IO.print text
    return 0
  | .error e =>
    IO.eprintln ("Error: " ++ e.message?.getD "invalid arguments")
    return UInt32.ofNat e.exitCode
