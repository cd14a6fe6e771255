import InkCanvas.Path.Trail
import Std.Data.HashSet

/-! # Curves kept for reuse

The curve of a stroke never changes, so it is built once and found again by the stroke's number. -/

namespace InkCanvas

/-- Curves by the numbers of their strokes, at most one for each number. -/
structure PathCache (α : Type) where
  /-- The kept curves, latest first. -/
  entries : List (Nat × InkPath α)

namespace PathCache

variable {α : Type}

/-- The cache without curves. -/
def empty : PathCache α := ⟨[]⟩

/-- The curve kept for a number. -/
def get? (c : PathCache α) (id : Nat) : Option (InkPath α) := c.entries.lookup id

/-- The numbers that have a curve. -/
def ids (c : PathCache α) : List Nat := c.entries.map Prod.fst

/-- The number of curves kept. -/
def size (c : PathCache α) : Nat := c.entries.length

/-- The curve of a numbered stroke, and the cache that keeps it: what is there already is used as
it is. -/
def getOrBuild [Scalar α] (c : PathCache α) (id : Nat) (s : Stroke α) :
    InkPath α × PathCache α :=
  match c.get? id with
  | some path => (path, c)
  | none => (s.path, ⟨(id, s.path) :: c.entries⟩)

/-- The cache with only the curves whose numbers are listed. -/
def retain (c : PathCache α) (live : List Nat) : PathCache α :=
  let keep := Std.HashSet.ofList live
  ⟨c.entries.filter fun entry => keep.contains entry.1⟩

end PathCache

end InkCanvas
