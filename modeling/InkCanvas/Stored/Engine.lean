import InkCanvas.Config
import InkCanvas.Session.Basic
import InkCanvas.Stored.Ink

/-! # Viewports, configurations and notices in JSON -/

namespace InkCanvas

open Json

/-- A point as it is stored. -/
def Point.toJson (p : Point Float) : Value := .ofFields [("x", .ofFloat p.x), ("y", .ofFloat p.y)]

/-- The point that is stored. -/
def Point.ofJson? (v : Value) : Option (Point Float) := do
  let f ← Fields.ofValue? ["x", "y"] v
  return ⟨← f.get? "x" Value.toFloat?, ← f.get? "y" Value.toFloat?⟩

namespace Viewport

/-- A viewport as it is stored. -/
def toJson (v : Viewport Float) : Value :=
  .ofFields [("scale", .ofFloat v.scale), ("translate", v.offset.toJson),
    ("min_scale", .ofFloat v.minScale), ("max_scale", .ofFloat v.maxScale)]

/-- The viewport that is stored, unless its values are none of a viewport. -/
def ofJson? (v : Value) : Option (Viewport Float) := do
  let f ← Fields.ofValue? ["scale", "translate", "min_scale", "max_scale"] v
  let scale ← f.get? "scale" Value.toFloat?
  let offset ← f.get? "translate" Point.ofJson?
  let lo ← f.get? "min_scale" Value.toFloat?
  let hi ← f.get? "max_scale" Value.toFloat?
  (ofStored scale offset lo hi).toOption

end Viewport

/-- The names of the touch modes. -/
def TouchMode.name : TouchMode → String
  | .panOnly => "pan_only"
  | .drawWithFinger => "draw_with_finger"

/-- The touch mode that is stored. -/
def TouchMode.ofJson? : Value → Option TouchMode :=
  constant? [("pan_only", .panOnly), ("draw_with_finger", .drawWithFinger)] .plain

namespace Config

/-- The names of the fields of a configuration. -/
def fieldNames : List String :=
  ["min_scale", "max_scale", "max_strokes", "max_history", "eraser_radius",
    "min_sample_distance", "tap_max_duration_ms", "touch_mode", "default_color", "default_width"]

/-- The fields of a configuration as they are stored. -/
def toFields (c : Config Float) : List (String × Value) :=
  [("min_scale", .ofFloat c.minScale), ("max_scale", .ofFloat c.maxScale),
    ("max_strokes", .ofNat c.maxStrokes.toNat), ("max_history", .ofNat c.maxHistory.toNat),
    ("eraser_radius", .ofFloat c.eraserRadius),
    ("min_sample_distance", .ofFloat c.minSampleDistance),
    ("tap_max_duration_ms", .ofNat c.tapMaxDuration.toNat),
    ("touch_mode", .ofString c.touchMode.name), ("default_color", c.defaultColor.toJson),
    ("default_width", .ofFloat c.defaultWidth)]

/-- A configuration as it is stored. -/
def toJson (c : Config Float) : Value := .ofFields c.toFields

/-- The configuration that is stored, whether it breaks a rule or not. What is not stored is as in
the standard configuration. -/
def ofJson? (v : Value) : Option (Config Float) := do
  let f ← Fields.ofValue? fieldNames v
  let d : Config Float := standard
  return {
    minScale := ← f.getD? "min_scale" d.minScale Value.toFloat?
    maxScale := ← f.getD? "max_scale" d.maxScale Value.toFloat?
    maxStrokes := ← f.getD? "max_strokes" d.maxStrokes Value.toUInt64?
    maxHistory := ← f.getD? "max_history" d.maxHistory Value.toUInt64?
    eraserRadius := ← f.getD? "eraser_radius" d.eraserRadius Value.toFloat?
    minSampleDistance := ← f.getD? "min_sample_distance" d.minSampleDistance Value.toFloat?
    tapMaxDuration := ← f.getD? "tap_max_duration_ms" d.tapMaxDuration Value.toUInt64?
    touchMode := ← f.getD? "touch_mode" d.touchMode TouchMode.ofJson?
    defaultColor := ← f.getD? "default_color" d.defaultColor Color.ofJson?
    defaultWidth := ← f.getD? "default_width" d.defaultWidth Value.toFloat? }

/-- The text of a configuration. -/
def text (c : Config Float) : String := c.toJson.pretty

/-- The configuration that a text spells, refused if it breaks a rule. -/
def ofText (s : String) : Except (InkError Float) (Config Float) :=
  match (Value.ofText? s).bind ofJson? with
  | none => .error .unreadable
  | some c => c.validate

end Config

/-- A notice as it is stored. -/
def Notice.toJson : Notice → Value
  | .strokesTrimmed count =>
    .ofFields [("kind", .ofString "strokes_trimmed"), ("count", .ofNat count)]

/-- The notice that is stored. -/
def Notice.ofJson? (v : Value) : Option Notice := do
  let record ← Tagged.ofValue? "kind" nestingLimit v
  guard (record.tag == "strokes_trimmed")
  let f ← record.fields? ["count"]
  return .strokesTrimmed (← f.get? "count" (Value.toNatBelow? UInt64.size))

end InkCanvas
