import InkCanvas.Error
import InkCanvas.Export
import InkCanvas.Script

/-! # From recordings to pictures

A recording is what the files hold that an invocation names. It is replayed and the canvas at the
end is painted. The files are looked at in order, the configuration before the script, and the
first fault is reported. -/

namespace InkCanvas

/-- Why a recording makes no picture. -/
inductive RecordingError where
  /-- A file cannot be read or written. -/
  | file
  /-- The script spells no steps. -/
  | script
  /-- The configuration is refused. -/
  | config (cause : InkError Float)
  /-- The canvas cannot be painted. -/
  | render (cause : RenderError)

/-- What an error says. -/
def RecordingError.message : RecordingError → String
  | .file => "I/O error"
  | .script => "Invalid script"
  | .config cause => "Invalid engine config: " ++ cause.message
  | .render cause => "Export failed: " ++ cause.message

/-- What the files hold. A file that cannot be read holds nothing. -/
structure Recording where
  /-- The text of the configuration, if a file is named for it. -/
  config : Option (Option String)
  /-- The text of the script. -/
  script : Option String
  width : UInt32
  height : UInt32

namespace Recording

/-- The text of a file that has to be there. -/
def contents (file : Option String) : Except RecordingError String :=
  match file with
  | some text => .ok text
  | none => .error .file

/-- The session that the configuration makes. -/
def session (r : Recording) : Except RecordingError (Session Float) := do
  let config ← match r.config with
    | none => pure Config.standard
    | some file => (Config.ofText (← contents file)).mapError .config
  (Session.ofConfig config).mapError .config

/-- The steps of the script. -/
def steps (r : Recording) : Except RecordingError (List Step) := do
  match Script.ofText? (← contents r.script) with
  | some steps => return steps
  | none => throw .script

/-- The picture of the canvas after the replay, and the replay in figures. -/
def picture (r : Recording) : Except RecordingError (Picture × Summary) := do
  let session ← r.session
  let (session, summary) := session.replay (← r.steps)
  let options : ExportOptions Float := { ExportOptions.standard with
    width := r.width, height := r.height }
  let picture ← (Export.picture session.strokes options).mapError .render
  return (picture, summary)

end Recording

end InkCanvas
