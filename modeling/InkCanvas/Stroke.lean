import InkCanvas.Color
import InkCanvas.Error
import InkCanvas.Geometry.Rect

/-! # Strokes

A sample is one reported position of the pen. A stroke is the ink of one movement of the pen: at least
one sample, a style and the tool it was drawn with. Strokes are made by `Stroke.start` and
`Stroke.extend`, which sanitize each sample (`Sample.sanitized`) and keep the times in order, or from a
whole list by `Stroke.ofSamples`. -/

namespace InkCanvas

/-! ## The look of ink -/

/-- What the hand holds. -/
inductive Tool where
  /-- Leaves ink of the selected style. -/
  | pen
  /-- Removes ink. -/
  | eraser
  deriving DecidableEq

/-- The look of a stroke. -/
structure Style (α : Type) where
  color : Color
  /-- The width of the line, in canvas units. -/
  width : α

/-- The style of fresh ink: black, three units wide. -/
def Style.fresh {α : Type} [Scalar α] : Style α := ⟨.black, Scalar.ofNat 3⟩

/-- What the next stroke is drawn with. -/
structure Settings (α : Type) where
  tool : Tool
  style : Style α

/-- A pen with fresh ink. -/
def Settings.fresh {α : Type} [Scalar α] : Settings α := ⟨.pen, .fresh⟩

/-! ## Samples -/

/-- One position of the pen on the canvas. -/
structure Sample (α : Type) where
  /-- Where the pen is. -/
  pos : Point α
  /-- When it is there, in milliseconds. -/
  time : UInt64
  /-- How hard it presses, if the device tells. -/
  pressure : Option α

namespace Sample

variable {α : Type} [Scalar α]

/-- A pressure brought into `[0, 1]`. -/
def unitPressure (p : α) : α := if p < 0 then 0 else if 1 < p then 1 else p

/-- The sample as a stroke keeps it: a position that is not finite is refused, a pressure that is
not finite is forgotten, and any other pressure is brought into `[0, 1]`. -/
def sanitized (s : Sample α) : Except (InkError α) (Sample α) := do
  let pos ← s.pos.requireFinite
  return { s with pos, pressure := (s.pressure.filter Scalar.isFinite).map unitPressure }

/-- The sample with its time raised to `t` if it is earlier. -/
def notBefore (s : Sample α) (t : UInt64) : Sample α := { s with time := max s.time t }

end Sample

/-! ## Strokes -/

/-- The ink of one movement of the pen. -/
structure Stroke (α : Type) where
  /-- The sample that opened the stroke. -/
  first : Sample α
  /-- The samples after it, in order. -/
  later : List (Sample α)
  style : Style α
  tool : Tool

namespace Stroke

variable {α : Type}

/-- All samples, in order. -/
def samples (s : Stroke α) : List (Sample α) := s.first :: s.later

/-- The positions of all samples, in order. -/
def positions (s : Stroke α) : List (Point α) := s.samples.map Sample.pos

/-- The sample that was added last. -/
def last (s : Stroke α) : Sample α := s.later.getLastD s.first

/-- The number of samples. -/
def length (s : Stroke α) : Nat := s.later.length + 1

/-- The stroke is a single sample. -/
def isDot (s : Stroke α) : Bool := s.later.isEmpty

variable [Scalar α]

/-- A stroke of one sample. The width is looked at before the sample. -/
def start (first : Sample α) (style : Style α) (tool : Tool) : Except (InkError α) (Stroke α) := do
  unless Scalar.isPositive style.width do throw (.invalidWidth style.width)
  return { first := ← first.sanitized, later := [], style, tool }

/-- The stroke with one sample more, no earlier than the last. -/
def extend (s : Stroke α) (next : Sample α) : Except (InkError α) (Stroke α) := do
  let next ← next.sanitized
  return { s with later := s.later ++ [next.notBefore s.last.time] }

/-- The stroke through the given samples. -/
def ofSamples (samples : List (Sample α)) (style : Style α) (tool : Tool) :
    Except (InkError α) (Stroke α) :=
  match samples with
  | [] => .error .emptyStroke
  | first :: later => do later.foldlM extend (← start first style tool)

/-- The distances from the samples to a point. -/
def distancesTo (s : Stroke α) (p : Point α) : List α := s.positions.map (·.distance p)

/-- Some sample lies within `radius` of the point. -/
def hitTest (s : Stroke α) (p : Point α) (radius : α) : Bool :=
  s.positions.any fun q => q.distanceSq p ≤ radius * radius

/-- The least rectangle around the samples, found from the first one on. A search through all of them
that starts from sides turned inside out, beyond every sample, finds the same
(`foldl_extend_insideOut`). -/
def bounds (s : Stroke α) : Rect α :=
  (s.later.map Sample.pos).foldl Rect.extend (Rect.ofPoint s.first.pos)

/-- Nothing of a start beyond all samples is left after the first of them. -/
theorem foldl_extend_insideOut {least greatest : α} {s : Stroke α}
    (hmin : ∀ p ∈ s.positions, Scalar.min greatest p.x = p.x ∧ Scalar.min greatest p.y = p.y)
    (hmax : ∀ p ∈ s.positions, Scalar.max least p.x = p.x ∧ Scalar.max least p.y = p.y) :
    s.positions.foldl Rect.extend (.insideOut least greatest) = s.bounds := by
  obtain ⟨hx0, hy0⟩ := hmin s.first.pos (.head _)
  obtain ⟨hx1, hy1⟩ := hmax s.first.pos (.head _)
  have hfirst : (Rect.insideOut least greatest).extend s.first.pos = .ofPoint s.first.pos := by
    simp only [Rect.extend, Rect.union, Rect.insideOut, Rect.ofPoint, hx0, hy0, hx1, hy1]
  change (s.later.map Sample.pos).foldl Rect.extend _ = _
  rw [hfirst]
  rfl

/-- The rectangle around the ink: the bounds grown by half the width. -/
def inkBounds (s : Stroke α) : Rect α := s.bounds.inflate (Scalar.half s.style.width)

end Stroke

/-- The least rectangle around the ink of all strokes, if there are any. -/
def contentBounds {α : Type} [Scalar α] : List (Stroke α) → Option (Rect α)
  | [] => none
  | s :: rest => some ((rest.map Stroke.inkBounds).foldl Rect.union s.inkBounds)

end InkCanvas
