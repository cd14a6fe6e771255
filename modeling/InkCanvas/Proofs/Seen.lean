import InkCanvas.Frame
import InkCanvas.Proofs.Exact

/-! # Curves seen through a viewport

In exact arithmetic it makes no difference whether a curve is drawn on the canvas and then seen through
a viewport, or drawn on the screen through the places where its positions are seen
(`InkPath.transformed_through`): a viewport carries midpoints to midpoints. -/

namespace InkCanvas

variable {v : Viewport ℝ}

namespace Viewport.WithinBounds

theorem toScreen_midpoint (h : v.WithinBounds) (p q : Point ℝ) :
    v.toScreen (p.midpoint q) = (v.toScreen p).midpoint (v.toScreen q) := by
  simp only [toScreen, Point.midpoint, h.effectiveScale_eq, Scalar.half_real, Point.mk.injEq]
  constructor <;> ring

end Viewport.WithinBounds

/-! ## Trails -/

/-- What has been drawn, with each of its points mapped. -/
def Trace.map {α : Type} (f : Point α → Point α) : Trace α → Trace α
  | .blank => .blank
  | .spot p => .spot (f p)
  | .drawn body p => .drawn (body.map (PathStep.map f)) (f p)

namespace Trail

/-- The trail as it is seen through a viewport. -/
def seen {α : Type} [Scalar α] (t : Trail α) (v : Viewport α) : Trail α :=
  ⟨t.radius * v.scale, t.trace.map v.toScreen⟩

theorem seen_ofWidth (width : ℝ) (v : Viewport ℝ) :
    (Trail.ofWidth width).seen v = Trail.ofWidth (width * v.scale) := by
  simp only [seen, Trail.ofWidth, Trace.map, Scalar.half_real, Trail.mk.injEq, and_true]
  ring

theorem seen_add (h : v.WithinBounds) (t : Trail ℝ) (p : Point ℝ) :
    (t.add p).seen v = (t.seen v).add (v.toScreen p) := by
  obtain ⟨radius, trace⟩ := t
  cases trace with
  | blank => rfl
  | spot q => rfl
  | drawn body q => simp [seen, add, Trace.map, PathStep.map, h.toScreen_midpoint]

theorem seen_foldl_add (h : v.WithinBounds) (t : Trail ℝ) (positions : List (Point ℝ)) :
    (positions.foldl add t).seen v = (positions.map v.toScreen).foldl add (t.seen v) := by
  induction positions generalizing t with
  | nil => rfl
  | cons p positions ih => rw [List.map_cons, List.foldl_cons, List.foldl_cons, ih, seen_add h]

theorem path_seen (h : v.WithinBounds) (t : Trail ℝ) :
    t.path.transformed v.transform v.scale = (t.seen v).path := by
  obtain ⟨radius, trace⟩ := t
  cases trace with
  | blank => rfl
  | spot p => simp [path, seen, Trace.map, InkPath.transformed, h.transform_apply]
  | drawn body p => simp [path, seen, Trace.map, InkPath.transformed, h.transform_apply, PathStep.map]

end Trail

/-- A curve seen through a viewport is the curve through the places where its positions are seen. -/
theorem InkPath.transformed_through (h : v.WithinBounds) (positions : List (Point ℝ)) (width : ℝ) :
    (InkPath.through positions width).transformed v.transform v.scale =
      .through (positions.map v.toScreen) (width * v.scale) := by
  rw [InkPath.through, Trail.path_seen h, Trail.seen_foldl_add h, Trail.seen_ofWidth]
  rfl

end InkCanvas
