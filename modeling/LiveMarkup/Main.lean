import LiveMarkup.Command

namespace LiveMarkup

/-- Reads a file as text. -/
def readText (path : String) : IO (Except ReadError String) := do
  try
    let bytes ← IO.FS.readBinFile path
    match String.fromUTF8? bytes with
    | some text => return .ok text
    | none => return .error .notText
  catch e =>
    match e with
    | .noFileOrDirectory .. => return .error .missing
    | e => return .error (.other (toString e))

def inputOf : Invocation → Option String
  | .run c => some c.input
  | _ => none

end LiveMarkup

open LiveMarkup in
def main (args : List String) : IO UInt32 := do
  let invocation := Invocation.ofArgs args
  let content ← match inputOf invocation with
    | some path => readText path
    | none => pure (.ok "")
  let outcome := invocation.outcome "livemarkup 0.1.1" mismatchDetail content
  IO.print outcome.output
  IO.eprint outcome.errors
  return outcome.code.toUInt32
