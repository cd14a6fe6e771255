import InkCanvas.Path.Basic
import InkCanvas.Stroke

/-! # The curve through a list of samples

A trail grows by one position at a time and can be asked for its curve after each. Inner
positions are the control points of quadratic pieces that meet halfway between neighbours; the
curve starts at the first position and ends with a straight line to the last.

While a stroke is drawn its curve grows beside it (`Live`). A sample that the stroke refuses reaches
neither. -/

namespace InkCanvas

/-- What the positions of a trail have drawn so far. -/
inductive Trace (α : Type) where
  /-- No position yet. -/
  | blank
  /-- A single position. -/
  | spot (p : Point α)
  /-- The steps that no further position changes, and the last position. -/
  | drawn (body : List (PathStep α)) (last : Point α)

/-- A curve that is still being drawn. -/
structure Trail (α : Type) where
  /-- The radius of the disc that a single position makes. -/
  radius : α
  /-- The positions so far. -/
  trace : Trace α

namespace Trail

variable {α : Type} [Scalar α]

/-- A trail without positions, for a line of the given width. -/
def ofWidth (width : α) : Trail α := ⟨Scalar.half width, .blank⟩

/-- The trail with one position more. -/
def add (t : Trail α) (p : Point α) : Trail α :=
  { t with trace := match t.trace with
      | .blank => .spot p
      | .spot q => .drawn [.move q] p
      | .drawn body q => .drawn (body ++ [.quad q (q.midpoint p)]) p }

/-- The number of positions. -/
def length (t : Trail α) : Nat :=
  match t.trace with
  | .blank => 0
  | .spot _ => 1
  | .drawn body _ => body.length + 1

/-- The curve through the positions so far. -/
def path (t : Trail α) : InkPath α :=
  match t.trace with
  | .blank => .empty
  | .spot p => .dot p t.radius
  | .drawn body q => .curve (body ++ [.line q])

end Trail

variable {α : Type} [Scalar α]

/-- The curve through a list of positions, for a line of the given width. -/
def InkPath.through (positions : List (Point α)) (width : α) : InkPath α :=
  (positions.foldl Trail.add (Trail.ofWidth width)).path

/-- The curve of a stroke. -/
def Stroke.path (s : Stroke α) : InkPath α := .through s.positions s.style.width

/-! ## The stroke being drawn -/

/-- A stroke that is being drawn. -/
structure Live (α : Type) where
  /-- The ink so far. -/
  stroke : Stroke α
  /-- The curve so far. -/
  trail : Trail α

namespace Live

/-- A stroke is opened with the selected style and tool. -/
def start (first : Sample α) (settings : Settings α) : Except (InkError α) (Live α) := do
  let stroke ← Stroke.start first settings.style settings.tool
  return ⟨stroke, (Trail.ofWidth settings.style.width).add first.pos⟩

/-- One sample more. -/
def extend (l : Live α) (next : Sample α) : Except (InkError α) (Live α) := do
  let stroke ← l.stroke.extend next
  return ⟨stroke, l.trail.add next.pos⟩

end Live

end InkCanvas
