import InkCanvas.Geometry.Affine

/-! # Curves of ink -/

namespace InkCanvas

/-- One step of a curve. -/
inductive PathStep (α : Type) where
  /-- Lift the pen and put it down at `p`. -/
  | move (p : Point α)
  /-- A straight line to `p`. -/
  | line (p : Point α)
  /-- A quadratic curve to `p` with control point `c`. -/
  | quad (c p : Point α)
  /-- A cubic curve to `p` with control points `c₁` and `c₂`. -/
  | cubic (c₁ c₂ p : Point α)
  /-- A straight line back to where the pen was put down. -/
  | close

/-- The shape of a stroke on the page. -/
inductive InkPath (α : Type) where
  | empty
  /-- A filled disc. -/
  | dot (center : Point α) (radius : α)
  /-- A line along a curve. -/
  | curve (steps : List (PathStep α))

variable {α : Type}

/-- The step with each of its points mapped. -/
def PathStep.map (f : Point α → Point α) : PathStep α → PathStep α
  | .move p => .move (f p)
  | .line p => .line (f p)
  | .quad c p => .quad (f c) (f p)
  | .cubic c₁ c₂ p => .cubic (f c₁) (f c₂) (f p)
  | .close => .close

/-- There is nothing to paint. A curve without steps is still a curve. -/
def InkPath.isEmpty : InkPath α → Bool
  | .empty => true
  | _ => false

/-- The shape under an affine map that scales lengths by `scale`. -/
def InkPath.transformed [Scalar α] (m : Affine α) (scale : α) : InkPath α → InkPath α
  | .empty => .empty
  | .dot center radius => .dot (m.apply center) (radius * scale)
  | .curve steps => .curve (steps.map (PathStep.map m.apply))

end InkCanvas
