import InkCanvas.Decimal
import InkCanvas.Geometry.Point

/-! # Why an ink operation is refused

Each constructor is a cause and carries the values that show it; `InkError.message` is the wording. -/

namespace InkCanvas

/-- What is wrong with an engine configuration, apart from its radius and its width. -/
inductive ConfigFault (α : Type) where
  /-- A scale bound is infinite or undefined. -/
  | scaleBoundsNotFinite
  /-- The scale bounds are not `0 < min ≤ max`. -/
  | scaleBoundsOrder (min max : α)
  /-- No stroke may be kept. -/
  | noStrokes
  /-- No step may be undone. -/
  | noHistory
  /-- The least distance between samples is negative or not finite. -/
  | sampleDistance (distance : α)

/-- Why an ink operation is refused. -/
inductive InkError (α : Type) where
  /-- A coordinate is infinite or undefined. -/
  | nonFiniteCoordinate (point : Point α)
  /-- A scale or a scale factor is infinite or undefined. -/
  | nonFiniteScale (scale : α)
  /-- An eraser radius is not finite and positive. -/
  | invalidRadius (radius : α)
  /-- A stroke is to be made of no samples. -/
  | emptyStroke
  /-- A stroke width is not finite and positive. -/
  | invalidWidth (width : α)
  /-- A configuration breaks one of its rules. -/
  | invalidConfig (fault : ConfigFault α)
  /-- A text does not spell the value it should. -/
  | unreadable

/-- The point itself, refused unless both coordinates are finite. -/
def Point.requireFinite {α : Type} [Scalar α] (p : Point α) : Except (InkError α) (Point α) :=
  if p.isFinite then .ok p else .error (.nonFiniteCoordinate p)

/-! ## The wording -/

/-- What a configuration fault says. -/
def ConfigFault.message : ConfigFault Float → String
  | .scaleBoundsNotFinite => "scale bounds must be finite"
  | .scaleBoundsOrder min max =>
    "scale bounds must satisfy 0 < min <= max, got [" ++ plainText min ++ ", " ++ plainText max
      ++ "]"
  | .noStrokes => "max_strokes must be at least 1"
  | .noHistory => "max_history must be at least 1"
  | .sampleDistance d => "min_sample_distance must be finite and non-negative, got " ++ plainText d

/-- What an error says. -/
def InkError.message : InkError Float → String
  | .nonFiniteCoordinate p =>
    "Non-finite coordinate: (" ++ plainText p.x ++ ", " ++ plainText p.y ++ ")"
  | .nonFiniteScale s => "Non-finite scale: " ++ plainText s
  | .invalidRadius r => "Invalid eraser radius: " ++ plainText r
  | .emptyStroke => "Stroke has no points"
  | .invalidWidth w => "Invalid stroke width: " ++ plainText w
  | .invalidConfig fault => "Invalid configuration: " ++ fault.message
  | .unreadable => "Serialization error"

end InkCanvas
