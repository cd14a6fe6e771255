/-! # Scalars

The engine computes with one kind of number throughout: coordinates, scales, widths and
pressures are all values of a type `α` with `Scalar α`. The program runs at `Float`. A statement
about the geometry itself, free of rounding, is a statement at an exact instance of the same
class, so both are about the same definitions.

* `Scalar`: the operations the engine needs, and no laws.
* `Scalar.min`, `Scalar.max`, `Scalar.clamp`: the order operations, which prefer a number to a
  value that differs from itself.
-/

namespace InkCanvas

/-- The arithmetic that coordinates, scales and widths are computed with. -/
class Scalar (α : Type) extends
    Zero α, One α, Add α, Sub α, Mul α, Div α, Neg α, LT α, LE α, BEq α where
  /-- The scalar of a natural number. -/
  ofNat : Nat → α
  sqrt : α → α
  /-- Whether a value is an ordinary number, neither infinite nor undefined. -/
  isFinite : α → Bool
  decidableLT : (a b : α) → Decidable (a < b)
  decidableLE : (a b : α) → Decidable (a ≤ b)

attribute [reducible, instance] Scalar.decidableLT Scalar.decidableLE

instance : Scalar Float where
  ofNat := Float.ofNat
  sqrt := Float.sqrt
  isFinite := Float.isFinite
  decidableLT := Float.decLt
  decidableLE := Float.decLe

namespace Scalar

variable {α : Type} [Scalar α]

/-- Half of a scalar. -/
def half (x : α) : α := x / ofNat 2

/-- The distance from one to the next double, `2⁻⁵²`. An extent or a change of scale no larger
than this counts as none. -/
def epsilon : α := 1 / ofNat 4503599627370496

/-- The smaller of two values; of equals the first, and a value that differs from itself yields
to the other. -/
protected def min (a b : α) : α := if !(a == a) then b else if b < a then b else a

/-- The larger of two values; of equals the first, and a value that differs from itself yields
to the other. -/
protected def max (a b : α) : α := if !(a == a) then b else if a < b then b else a

/-- The value brought into `[lo, hi]`: first down to `hi`, then up to `lo`. -/
def clamp (x lo hi : α) : α := Scalar.max (Scalar.min x hi) lo

/-- The value without its sign. -/
def magnitude (x : α) : α := if x < 0 then -x else x

/-- A finite value above zero, as widths and radii have to be. -/
def isPositive (x : α) : Bool := isFinite x && decide (0 < x)

end Scalar

end InkCanvas
