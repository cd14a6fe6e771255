import InkCanvas.Scalar

/-! # Points and displacements of the plane

A displacement is the point it moves the origin to, so both are values of `Point`. -/

namespace InkCanvas

/-- A point of the plane, or a displacement in it. -/
structure Point (α : Type) where
  x : α
  y : α
  deriving BEq

namespace Point

variable {α : Type} [Scalar α]

/-- The origin, and the displacement that moves nothing. -/
def zero : Point α := ⟨0, 0⟩

instance : Add (Point α) := ⟨fun p q => ⟨p.x + q.x, p.y + q.y⟩⟩

instance : Sub (Point α) := ⟨fun p q => ⟨p.x - q.x, p.y - q.y⟩⟩

instance : Neg (Point α) := ⟨fun p => ⟨-p.x, -p.y⟩⟩

/-- Both coordinates are finite. -/
def isFinite (p : Point α) : Bool := Scalar.isFinite p.x && Scalar.isFinite p.y

/-- The square of the distance between two points. -/
def distanceSq (p q : Point α) : α :=
  (p.x - q.x) * (p.x - q.x) + (p.y - q.y) * (p.y - q.y)

/-- The distance between two points. -/
def distance (p q : Point α) : α := Scalar.sqrt (p.distanceSq q)

/-- The point halfway between two points. -/
def midpoint (p q : Point α) : Point α := ⟨Scalar.half (p.x + q.x), Scalar.half (p.y + q.y)⟩

end Point

end InkCanvas
