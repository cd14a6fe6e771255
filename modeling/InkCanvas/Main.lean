import InkCanvas.CommandLine
import InkCanvas.Recording

/-! # The command

Replays a recorded session and writes the picture of its canvas, and on demand the request for a
recognizer. -/

namespace InkCanvas

/-- The help. -/
def usage : String :=
  "\n".intercalate [
    "Replay a recorded ink session and export the canvas",
    "",
    "Usage: ink-replay [OPTIONS] --script <SCRIPT> --out <OUT>",
    "",
    "Options:",
    "      --script <SCRIPT>    the recorded session",
    "      --config <CONFIG>    the engine configuration",
    "      --out <OUT>          the picture to write",
    "      --width <WIDTH>      its width in pixels [default: 800]",
    "      --height <HEIGHT>    its height in pixels [default: 400]",
    "      --payload <PAYLOAD>  the recognition request to write",
    "  -h, --help               print this help",
    "  -V, --version            print the version"]

/-- What a wrong invocation is told. -/
def UsageError.message : UsageError → String
  | .missingRequiredArgument => "the options --script and --out are required"
  | .unknownArgument => "unexpected argument"
  | .invalidValue => "an option needs a value"
  | .valueValidation => "a size has to be a count of pixels"
  | .argumentConflict => "an option is given twice"
  | .tooManyValues => "an option takes no value"
  | .displayHelp => usage
  | .displayVersion => "ink-replay 0.1.0"

/-- The text of a file, if it can be read. -/
def readText (path : String) : IO (Option String) := do
  match ← (IO.FS.readFile path).toBaseIO with
  | .ok text => return some text
  | .error _ => return none

/-- The files are read, the recording is replayed and the results are written. -/
def invoke (call : Invocation) : IO UInt32 := do
  let config ← call.config.mapM readText
  let script ← readText call.script
  let recording : Recording := ⟨config, script, call.width, call.height⟩
  let file := do
    let (picture, _) ← recording.picture
    (Export.encode (.ofPicture picture)).mapError RecordingError.render
  match file with
  | .error e =>
    IO.eprintln ("ink-replay: " ++ e.message)
    return 1
  | .ok file =>
    try
      IO.FS.writeBinFile call.out file
      if let some path := call.payload then
        IO.FS.writeFile path (OcrRequest.ofPng file).text
      return 0
    catch e =>
      IO.eprintln ("ink-replay: " ++ RecordingError.file.message ++ ": " ++ toString e)
      return 1

end InkCanvas

/-- The command itself. -/
def main (args : List String) : IO UInt32 := do
  match InkCanvas.Invocation.ofArgs args with
  | .ok call => InkCanvas.invoke call
  | .error e =>
    if e == .displayHelp || e == .displayVersion then
      IO.println e.message
      return 0
    else
      IO.eprintln ("error: " ++ e.message)
      return 2
