import InkCanvas.Viewport
import InkCanvas.Stroke

/-! # Engine configuration

`Config.validate` looks at the fields in a fixed order and reports the first fault. What it establishes
is `Config.Valid`. -/

namespace InkCanvas

/-- What one finger does. -/
inductive TouchMode where
  /-- It moves the canvas. -/
  | panOnly
  /-- It draws, like a pen. -/
  | drawWithFinger
  deriving DecidableEq

/-- The settings a session is made with. -/
structure Config (α : Type) where
  /-- The least scale of the viewport. -/
  minScale : α
  /-- The greatest scale of the viewport. -/
  maxScale : α
  /-- How many strokes the canvas keeps. -/
  maxStrokes : UInt64
  /-- How many steps can be undone. -/
  maxHistory : UInt64
  /-- How far from its point the eraser reaches, in canvas units. -/
  eraserRadius : α
  /-- How far a contact has to move for a new sample, in screen units. -/
  minSampleDistance : α
  /-- How long a tap lasts at most, in milliseconds. -/
  tapMaxDuration : UInt64
  /-- What one finger does. -/
  touchMode : TouchMode
  /-- The color selected at first. -/
  defaultColor : Color
  /-- The width selected at first. -/
  defaultWidth : α

namespace Config

variable {α : Type} [Scalar α]

/-- The settings of a session that is given none. -/
def standard : Config α where
  minScale := InkCanvas.minScale
  maxScale := InkCanvas.maxScale
  maxStrokes := 500
  maxHistory := 100
  eraserRadius := Scalar.ofNat 10
  minSampleDistance := 1
  tapMaxDuration := 200
  touchMode := .panOnly
  defaultColor := .black
  defaultWidth := Scalar.ofNat 3

/-- The first rule that the configuration breaks, if it breaks one. -/
def fault? (c : Config α) : Option (InkError α) :=
  if !(Scalar.isFinite c.minScale && Scalar.isFinite c.maxScale) then
    some (.invalidConfig .scaleBoundsNotFinite)
  else if c.minScale ≤ 0 ∨ c.maxScale < c.minScale then
    some (.invalidConfig (.scaleBoundsOrder c.minScale c.maxScale))
  else if c.maxStrokes = 0 then some (.invalidConfig .noStrokes)
  else if c.maxHistory = 0 then some (.invalidConfig .noHistory)
  else if !Scalar.isPositive c.eraserRadius then some (.invalidRadius c.eraserRadius)
  else if !Scalar.isPositive c.defaultWidth then some (.invalidWidth c.defaultWidth)
  else if !(Scalar.isFinite c.minSampleDistance && decide (0 ≤ c.minSampleDistance)) then
    some (.invalidConfig (.sampleDistance c.minSampleDistance))
  else none

/-- The configuration itself, refused if it breaks a rule. -/
def validate (c : Config α) : Except (InkError α) (Config α) :=
  match c.fault? with
  | some e => .error e
  | none => .ok c

/-- The rules of a configuration, one by one. -/
structure Valid (c : Config α) : Prop where
  finite_minScale : Scalar.isFinite c.minScale = true
  finite_maxScale : Scalar.isFinite c.maxScale = true
  minScale_pos : ¬c.minScale ≤ 0
  minScale_le : ¬c.maxScale < c.minScale
  maxStrokes_ne : c.maxStrokes ≠ 0
  maxHistory_ne : c.maxHistory ≠ 0
  eraserRadius_pos : Scalar.isPositive c.eraserRadius = true
  defaultWidth_pos : Scalar.isPositive c.defaultWidth = true
  finite_minSampleDistance : Scalar.isFinite c.minSampleDistance = true
  minSampleDistance_nonneg : 0 ≤ c.minSampleDistance

/-- A configuration breaks no rule exactly if it satisfies each of them. -/
theorem fault?_eq_none_iff {c : Config α} : c.fault? = none ↔ c.Valid := by
  constructor
  · intro h
    unfold fault? at h
    grind [Valid]
  · intro h
    obtain ⟨h1, h2, h3, h4, h5, h6, h7, h8, h9, h10⟩ := h
    unfold fault?
    simp [h1, h2, h3, h4, h5, h6, h7, h8, h9, h10]

end Config

end InkCanvas
