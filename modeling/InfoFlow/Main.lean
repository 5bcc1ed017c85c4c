import InfoFlow.CommandLine.Estimate
import InfoFlow.Scalar.Double

namespace InfoFlow

/-- The bytes of a file. -/
def readFile (path : String) : IO (Except DataError (List UInt8)) := do
  try
    return .ok (← IO.FS.readBinFile path).toList
  catch e =>
    match e with
    | .noFileOrDirectory .. => return .error .missingFile
    | e => return .error (.unreadableFile (toString e))

/-- Prints a transcript. -/
def Transcript.print (t : Transcript) : IO UInt32 := do
  t.lines.forM IO.println
  t.errorLine?.forM IO.eprintln
  return t.exitCode

end InfoFlow

open InfoFlow in
def main (arguments : List String) : IO UInt32 := do
  match Request.ofList? arguments with
  | none =>
    IO.eprintln s!"Invalid arguments.\n{usage}"
    return 1
  | some .help =>
    IO.println usage
    return 0
  | some .version =>
    IO.println version
    return 0
  | some (.estimate request) => (request.report Float (← readFile request.path)).print
