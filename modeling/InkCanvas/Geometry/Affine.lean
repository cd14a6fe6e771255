import InkCanvas.Geometry.Point

/-! # Affine maps of the plane -/

namespace InkCanvas

/-- The map that takes `(x, y)` to `(a·x + c·y + e, b·x + d·y + f)`. -/
structure Affine (α : Type) where
  /-- The share of `x` in the new `x`. -/
  a : α
  /-- The share of `x` in the new `y`. -/
  b : α
  /-- The share of `y` in the new `x`. -/
  c : α
  /-- The share of `y` in the new `y`. -/
  d : α
  /-- The horizontal displacement. -/
  e : α
  /-- The vertical displacement. -/
  f : α

namespace Affine

variable {α : Type} [Scalar α]

/-- The image of a point. -/
def apply (m : Affine α) (p : Point α) : Point α :=
  ⟨m.a * p.x + m.c * p.y + m.e, m.b * p.x + m.d * p.y + m.f⟩

/-- The composite map: first `n`, then `m`. -/
def comp (m n : Affine α) : Affine α where
  a := m.a * n.a + m.c * n.b
  b := m.b * n.a + m.d * n.b
  c := m.a * n.c + m.c * n.d
  d := m.b * n.c + m.d * n.d
  e := m.a * n.e + m.c * n.f + m.e
  f := m.b * n.e + m.d * n.f + m.f

/-- Scaling about the origin. -/
def scaling (s : α) : Affine α := ⟨s, 0, 0, s, 0, 0⟩

/-- Displacement by `v`. -/
def shift (v : Point α) : Affine α := ⟨1, 0, 0, 1, v.x, v.y⟩

end Affine

end InkCanvas
