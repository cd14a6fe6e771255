import InkCanvas.Json.Printer
import InkCanvas.Json.Reader
import InkCanvas.Stroke

/-! # Ink in JSON -/

namespace InkCanvas

open Json

/-- A color as it is stored. -/
def Color.toJson (c : Color) : Value :=
  .ofFields [("r", .ofNat c.r.toNat), ("g", .ofNat c.g.toNat), ("b", .ofNat c.b.toNat),
    ("a", .ofNat c.a.toNat)]

/-- The color that is stored. -/
def Color.ofJson? (v : Value) : Option Color := do
  let f ← Fields.ofValue? ["r", "g", "b", "a"] v
  return ⟨← f.get? "r" Value.toUInt8?, ← f.get? "g" Value.toUInt8?, ← f.get? "b" Value.toUInt8?,
    ← f.get? "a" Value.toUInt8?⟩

/-- The names of the tools. -/
def Tool.name : Tool → String
  | .pen => "pen"
  | .eraser => "eraser"

/-- The tool that is stored. -/
def Tool.ofJson? : Setting → Value → Option Tool :=
  constant? [("pen", .pen), ("eraser", .eraser)]

/-- A style as it is stored. -/
def Style.toJson (s : Style Float) : Value :=
  .ofFields [("color", s.color.toJson), ("width", .ofFloat s.width)]

/-- The style that is stored. -/
def Style.ofJson? (v : Value) : Option (Style Float) := do
  let f ← Fields.ofValue? ["color", "width"] v
  return ⟨← f.get? "color" Color.ofJson?, ← f.get? "width" Value.toFloat?⟩

/-- The tool and the style as they are stored. -/
def Settings.toJson (s : Settings Float) : Value :=
  .ofFields [("tool", .ofString s.tool.name), ("style", s.style.toJson)]

/-- The tool and the style that are stored. -/
def Settings.ofJson? (v : Value) : Option (Settings Float) := do
  let f ← Fields.ofValue? ["tool", "style"] v
  return ⟨← f.get? "tool" (Tool.ofJson? .plain), ← f.get? "style" Style.ofJson?⟩

/-- A pressure as it is stored: nothing where the device told none. -/
def pressureField (pressure : Option Float) : List (String × Value) :=
  match pressure with
  | none => []
  | some p => [("pressure", .ofFloat p)]

/-- A sample as it is stored. -/
def Sample.toJson (s : Sample Float) : Value :=
  .ofFields ([("x", .ofFloat s.pos.x), ("y", .ofFloat s.pos.y), ("t", .ofNat s.time.toNat)]
    ++ pressureField s.pressure)

/-- The sample that is stored. -/
def Sample.ofJson? (v : Value) : Option (Sample Float) := do
  let f ← Fields.ofValue? ["x", "y", "t", "pressure"] v
  return ⟨⟨← f.get? "x" Value.toFloat?, ← f.get? "y" Value.toFloat?⟩,
    ← f.get? "t" Value.toUInt64?, ← f.getOption? "pressure" Value.toFloat?⟩

/-- A stroke as it is stored, under a name given by the host. -/
def Stroke.toJson (s : Stroke Float) (id : String) : Value :=
  .ofFields [("id", .ofString id), ("points", .array (s.samples.map Sample.toJson)),
    ("style", s.style.toJson), ("tool", .ofString s.tool.name)]

end InkCanvas
