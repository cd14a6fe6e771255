import InkCanvas.Geometry.Point

/-! # Upright rectangles -/

namespace InkCanvas

/-- The upright rectangle from corner `(x0, y0)` to corner `(x1, y1)`. -/
structure Rect (α : Type) where
  /-- The left side. -/
  x0 : α
  /-- The upper side. -/
  y0 : α
  /-- The right side. -/
  x1 : α
  /-- The lower side. -/
  y1 : α

namespace Rect

variable {α : Type} [Scalar α]

/-- The rectangle that holds a single point. -/
def ofPoint (p : Point α) : Rect α := ⟨p.x, p.y, p.x, p.y⟩

/-- The sides are turned inside out: the left one is as far to the right as can be, and so on. -/
def insideOut (least greatest : α) : Rect α := ⟨greatest, greatest, least, least⟩

/-- The horizontal extent. -/
def width (r : Rect α) : α := r.x1 - r.x0

/-- The vertical extent. -/
def height (r : Rect α) : α := r.y1 - r.y0

/-- The point in the middle. -/
def center (r : Rect α) : Point α := ⟨Scalar.half (r.x0 + r.x1), Scalar.half (r.y0 + r.y1)⟩

/-- The rectangle with every side moved outward by `d`. -/
def inflate (r : Rect α) (d : α) : Rect α := ⟨r.x0 - d, r.y0 - d, r.x1 + d, r.y1 + d⟩

/-- The least rectangle around two rectangles. -/
def union (r s : Rect α) : Rect α :=
  ⟨Scalar.min r.x0 s.x0, Scalar.min r.y0 s.y0, Scalar.max r.x1 s.x1, Scalar.max r.y1 s.y1⟩

/-- The least rectangle around a rectangle and a point. -/
def extend (r : Rect α) (p : Point α) : Rect α := r.union (ofPoint p)

/-- The point lies in the rectangle or on one of its sides. -/
def contains (r : Rect α) (p : Point α) : Bool :=
  decide (r.x0 ≤ p.x) && decide (p.x ≤ r.x1) && decide (r.y0 ≤ p.y) && decide (p.y ≤ r.y1)

end Rect

end InkCanvas
