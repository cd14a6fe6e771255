import InkCanvas.Gesture.Event
import InkCanvas.Stored.Ink

/-! # Input events in JSON -/

namespace InkCanvas

open Json

/-- The names of the devices. -/
def Device.name : Device → String
  | .stylus => "stylus"
  | .touch => "touch"

/-- The device that is stored. -/
def Device.ofJson? : Setting → Value → Option Device :=
  constant? [("stylus", .stylus), ("touch", .touch)]

/-- The names of the phases. -/
def Phase.name : Phase → String
  | .start => "start"
  | .move => "move"
  | .lift => "end"
  | .cancel => "cancel"

/-- The phase that is stored. -/
def Phase.ofJson? : Setting → Value → Option Phase :=
  constant? [("start", .start), ("move", .move), ("end", .lift), ("cancel", .cancel)]

namespace Event

/-- The names of the fields of an event. -/
def fieldNames : List String :=
  ["contact_id", "device", "phase", "screen_x", "screen_y", "timestamp_ms", "pressure"]

/-- The fields of an event as they are stored. -/
def toFields (e : Event Float) : List (String × Value) :=
  [("contact_id", .ofNat e.contact.toNat), ("device", .ofString e.device.name),
    ("phase", .ofString e.phase.name), ("screen_x", .ofFloat e.pos.x),
    ("screen_y", .ofFloat e.pos.y), ("timestamp_ms", .ofNat e.time.toNat)]
    ++ pressureField e.pressure

/-- An event as it is stored. -/
def toJson (e : Event Float) : Value := .ofFields e.toFields

/-- The event that is stored in fields. -/
def ofFields? (setting : Setting) (f : Fields) : Option (Event Float) := do
  return {
    contact := ← f.get? "contact_id" Value.toUInt64?
    device := ← f.get? "device" (Device.ofJson? setting)
    phase := ← f.get? "phase" (Phase.ofJson? setting)
    pos := ⟨← f.get? "screen_x" Value.toFloat?, ← f.get? "screen_y" Value.toFloat?⟩
    time := ← f.get? "timestamp_ms" Value.toUInt64?
    pressure := ← f.getOption? "pressure" Value.toFloat? }

/-- The event that is stored. -/
def ofJson? (v : Value) : Option (Event Float) := do
  ofFields? .plain (← Fields.ofValue? fieldNames v)

end Event

end InkCanvas
