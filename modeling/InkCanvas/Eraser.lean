import InkCanvas.Stroke

/-! # The eraser

The eraser removes whole strokes: those with a sample within its radius. Strokes are told apart by
their numbers. -/

namespace InkCanvas

/-- A stroke on the canvas, with the number it got when it was committed. -/
structure Inked (α : Type) where
  id : Nat
  stroke : Stroke α

namespace Eraser

variable {α : Type} [Scalar α]

/-- The radius itself, refused unless it is finite and positive. -/
def requireRadius (r : α) : Except (InkError α) α :=
  if Scalar.isPositive r then .ok r else .error (.invalidRadius r)

/-- The eraser at `p` touches the stroke. The bounds are looked at before the samples. -/
def touches (p : Point α) (radius : α) (s : Stroke α) : Bool :=
  (s.bounds.inflate radius).contains p && s.hitTest p radius

/-- The numbers of the strokes that the eraser touches, in the order of the list. -/
def hits (strokes : List (Inked α)) (p : Point α) (radius : α) :
    Except (InkError α) (List Nat) := do
  let p ← p.requireFinite
  let radius ← requireRadius radius
  return (strokes.filter fun s => touches p radius s.stroke).map Inked.id

/-- The strokes that remain, or nothing if the eraser touches none. -/
def erase (strokes : List (Inked α)) (p : Point α) (radius : α) :
    Except (InkError α) (Option (List (Inked α))) := do
  let hit ← hits strokes p radius
  if hit.isEmpty then
    return none
  else
    return some (strokes.filter fun s => !hit.contains s.id)

end Eraser

end InkCanvas
