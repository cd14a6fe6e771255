import InkCanvas.Geometry.Affine
import InkCanvas.Geometry.Rect
import InkCanvas.Error

/-! # The viewport

A viewport places the canvas on the screen: a canvas point is scaled, then displaced. Its scale
stays within the viewport's own bounds, because every change clamps it, and a change whose
arguments or result are not finite is refused.

* `Viewport.toCanvas`, `Viewport.toScreen`: the two directions, point by point.
* `Viewport.transform`, `Viewport.inverse`: the same as affine maps.
* `Viewport.set`, `pan`, `zoomAt`, `pinched`, `reset`, `fit`: the changes. -/

namespace InkCanvas

/-- The least scale of a viewport that is given no bounds. -/
def minScale {α : Type} [Scalar α] : α := 1 / Scalar.ofNat 10

/-- The greatest scale of a viewport that is given no bounds. -/
def maxScale {α : Type} [Scalar α] : α := Scalar.ofNat 10

/-- How the canvas lies on the screen. -/
structure Viewport (α : Type) where
  /-- Screen units for a canvas unit. -/
  scale : α
  /-- Where the canvas origin is on the screen. -/
  offset : Point α
  minScale : α
  maxScale : α
  deriving BEq

namespace Viewport

variable {α : Type} [Scalar α]

/-- The viewport with the given bounds that shows the origin in the corner, at scale one as far
as the bounds allow. The bounds are not looked at. -/
def withBounds (lo hi : α) : Viewport α := ⟨Scalar.clamp 1 lo hi, .zero, lo, hi⟩

/-- The viewport that shows the origin in the corner at scale one. -/
def initial : Viewport α := ⟨1, .zero, InkCanvas.minScale, InkCanvas.maxScale⟩

/-- A scale brought within the bounds of the viewport. -/
def clampScale (v : Viewport α) (s : α) : α := Scalar.clamp s v.minScale v.maxScale

/-- The scale that points are mapped with. -/
def effectiveScale (v : Viewport α) : α := v.clampScale v.scale

/-- The canvas point under a screen point. -/
def toCanvas (v : Viewport α) (p : Point α) : Point α :=
  ⟨(p.x - v.offset.x) / v.effectiveScale, (p.y - v.offset.y) / v.effectiveScale⟩

/-- Where a canvas point is on the screen. -/
def toScreen (v : Viewport α) (p : Point α) : Point α :=
  ⟨p.x * v.effectiveScale + v.offset.x, p.y * v.effectiveScale + v.offset.y⟩

/-- The map from canvas to screen. -/
def transform (v : Viewport α) : Affine α :=
  (Affine.shift v.offset).comp (.scaling v.effectiveScale)

/-- The map from screen to canvas. -/
def inverse (v : Viewport α) : Affine α :=
  (Affine.scaling (1 / v.effectiveScale)).comp (.shift (-v.offset))

/-- The scale itself, refused unless it is finite. -/
def requireScale (s : α) : Except (InkError α) α :=
  if Scalar.isFinite s then .ok s else .error (.nonFiniteScale s)

/-- The viewport with a new scale, clamped, and a new offset. -/
def set (v : Viewport α) (scale : α) (offset : Point α) :
    Except (InkError α) (Viewport α) := do
  let scale ← requireScale scale
  let offset ← offset.requireFinite
  return { v with scale := v.clampScale scale, offset }

/-- The viewport displaced by `delta`. -/
def pan (v : Viewport α) (delta : Point α) : Except (InkError α) (Viewport α) := do
  let delta ← delta.requireFinite
  let offset ← (v.offset + delta).requireFinite
  return { v with offset }

/-- The offset that puts the canvas point `p` under the screen point `place` at scale `s`. -/
def anchored (p place : Point α) (s : α) : Point α := ⟨place.x - p.x * s, place.y - p.y * s⟩

/-- The viewport scaled by `factor` about a screen point, which keeps its canvas point; nothing
if the clamped scale stays the same. -/
def zoomAt (v : Viewport α) (anchor : Point α) (factor : α) :
    Except (InkError α) (Option (Viewport α)) := do
  let factor ← requireScale factor
  let anchor ← anchor.requireFinite
  let scale := v.clampScale (v.scale * factor)
  if Scalar.magnitude (scale - v.scale) < Scalar.epsilon then
    return none
  else
    some <$> v.set scale (anchored (v.toCanvas anchor) anchor scale)

/-- The viewport of a pinch that started around `startMid` and is now around `currentMid`, with
the fingers `ratio` times as far apart. The canvas point between the fingers stays there. -/
def pinched (v : Viewport α) (startMid currentMid : Point α) (ratio : α) :
    Except (InkError α) (Viewport α) := do
  let ratio ← requireScale ratio
  let startMid ← startMid.requireFinite
  let currentMid ← currentMid.requireFinite
  let scale := v.clampScale (v.scale * ratio)
  v.set scale (anchored (v.toCanvas startMid) currentMid scale)

/-- The viewport back at the origin, at scale one as far as the bounds allow. -/
def reset (v : Viewport α) : Viewport α :=
  { v with scale := v.clampScale 1, offset := .zero }

/-- The scale at which an extent fills the space given to it. An extent of no more than
`Scalar.epsilon`, as of a dot or of a straight line, fits at any scale. -/
def fillScale (space extent : α) : Option α :=
  if Scalar.epsilon < extent then some (space / extent) else none

/-- The scale at which both axes fit, if either asks for one and it is finite. -/
def fitScale (r : Rect α) (width height : α) : Option α :=
  let scale := match fillScale width r.width, fillScale height r.height with
    | some sx, some sy => some (Scalar.min sx sy)
    | some sx, none => some sx
    | none, sy => sy
  scale.filter Scalar.isFinite

/-- The viewport that centers a canvas rectangle on a screen of the given size and shows it as
large as the bounds allow, with `padding` around it. -/
def fit (v : Viewport α) (r : Rect α) (width height padding : α) : Viewport α :=
  let room (extent : α) := Scalar.max (extent - padding * Scalar.ofNat 2) 1
  let scale := v.clampScale ((fitScale r (room width) (room height)).getD 1)
  { v with
    scale
    offset := anchored r.center ⟨Scalar.half width, Scalar.half height⟩ scale }

/-- The viewport of stored values: the bounds must be finite and `0 < lo ≤ hi`. -/
def ofStored (scale : α) (offset : Point α) (lo hi : α) :
    Except (InkError α) (Viewport α) :=
  if Scalar.isFinite lo && Scalar.isFinite hi && decide (0 < lo) && decide (lo ≤ hi) then
    (withBounds lo hi).set scale offset
  else
    .error (.invalidConfig (.scaleBoundsOrder lo hi))

end Viewport

end InkCanvas
