import InkCanvas.Session.Action
import InkCanvas.Stored.Engine
import InkCanvas.Stored.Input

/-! # Recorded sessions

A script is a list of steps, and `Session.replay` does them one after the other. A step is stored
with the tag `type`. -/

namespace InkCanvas

open Json

/-- One step of a recorded session. -/
inductive Step where
  /-- A contact did something. -/
  | input (e : Event Float)
  | setTool (tool : Tool)
  | setColor (color : Color)
  | setWidth (width : Float)
  /-- A step was taken back. -/
  | undo
  /-- A step was taken up again. -/
  | redo
  | clear
  /-- The host interrupted everything. -/
  | interrupt

namespace Step

/-- The names of the kinds of step. -/
def tag : Step → String
  | .input _ => "input"
  | .setTool _ => "set_tool"
  | .setColor _ => "set_color"
  | .setWidth _ => "set_width"
  | .undo => "undo"
  | .redo => "redo"
  | .clear => "clear"
  | .interrupt => "interrupt"

/-- What a step holds, as it is stored. -/
def toFields : Step → List (String × Value)
  | .input e => e.toFields
  | .setTool tool => [("tool", .ofString tool.name)]
  | .setColor color => [("color", color.toJson)]
  | .setWidth width => [("width", .ofFloat width)]
  | .undo | .redo | .clear | .interrupt => []

/-- A step as it is stored. -/
def toJson (s : Step) : Value := .ofFields (("type", .ofString s.tag) :: s.toFields)

/-- A step that holds nothing. As an array it has the tag alone. -/
def constant? (s : Step) (record : Tagged) : Option Step :=
  (record.fields? []).map fun _ => s

/-- The step that is stored where `room` arrays and objects may be nested. -/
def ofJson? (room : Nat) (v : Value) : Option Step := do
  let record ← Tagged.ofValue? "type" room v
  match record.tag with
  | "input" => .input <$> ((← record.fields? Event.fieldNames) |> Event.ofFields? .tagged)
  | "set_tool" => .setTool <$> (← record.fields? ["tool"]).get? "tool" (Tool.ofJson? .tagged)
  | "set_color" => .setColor <$> (← record.fields? ["color"]).get? "color" Color.ofJson?
  | "set_width" => .setWidth <$> (← record.fields? ["width"]).get? "width" Value.toFloat?
  | "undo" => constant? .undo record
  | "redo" => constant? .redo record
  | "clear" => constant? .clear record
  | "interrupt" => constant? .interrupt record
  | _ => none

/-- The call of the host that a step records. -/
def action : Step → Action Float
  | .input e => .handle e
  | .setTool tool => .setTool tool
  | .setColor color => .setColor color
  | .setWidth width => .setWidth width
  | .undo => .undo
  | .redo => .redo
  | .clear => .clear
  | .interrupt => .interrupt

end Step

namespace Script

/-- A script as it is stored. -/
def toJson (steps : List Step) : Value := .array (steps.map Step.toJson)

/-- The text of a script. -/
def text (steps : List Step) : String := (toJson steps).compact

/-- The script that is stored. -/
def ofJson? (v : Value) : Option (List Step) :=
  v.toList?.bind (·.mapM (Step.ofJson? (nestingLimit - 1)))

/-- The script that a text spells. -/
def ofText? (s : String) : Option (List Step) := (Value.ofText? s).bind ofJson?

end Script

/-- A replay in figures. -/
structure Summary where
  /-- How many steps there were. -/
  steps : Nat
  /-- How many of them changed something. -/
  changed : Nat
  /-- How many strokes there are at the end. -/
  strokes : Nat
  /-- What the session had to tell. -/
  notices : List Notice
  deriving DecidableEq

/-- A report of something done: a selection of a tool or a color counts as done. -/
def Report.isChange : Report → Bool
  | .done => true
  | .changed yes => yes
  | .removed count => decide (0 < count)
  | .notices _ => false

namespace Session

/-- One step is done, and the notices it caused are collected. -/
def replayStep (progress : Session Float × Summary) (step : Step) : Session Float × Summary :=
  let (s, summary) := progress
  let (s, report) := s.perform step.action
  let (s, notices) := s.takeNotices
  (s, { summary with
    steps := summary.steps + 1
    changed := summary.changed + if report.isChange then 1 else 0
    strokes := s.strokes.length
    notices := summary.notices ++ notices })

/-- The session after all steps of a script, and what happened in figures. -/
def replay (s : Session Float) (steps : List Step) : Session Float × Summary :=
  steps.foldl replayStep (s, ⟨0, 0, s.strokes.length, []⟩)

end Session

end InkCanvas
