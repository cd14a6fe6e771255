import InkCanvas.Eraser
import InkCanvas.Proofs.Exact

/-! # Rectangles around strokes

The bounds of a stroke are the least rectangle around its samples (`Stroke.bounds_within_iff`). So the
eraser, which looks at the bounds before it looks at the samples, passes over no stroke with a sample
within its radius (`Eraser.touches_iff`). -/

namespace InkCanvas

/-! ## Rectangles -/

namespace Rect

/-- The sides of a rectangle are in order. -/
def Proper (r : Rect ℝ) : Prop := r.x0 ≤ r.x1 ∧ r.y0 ≤ r.y1

/-- One rectangle lies in another. -/
def Within (r s : Rect ℝ) : Prop := s.x0 ≤ r.x0 ∧ s.y0 ≤ r.y0 ∧ r.x1 ≤ s.x1 ∧ r.y1 ≤ s.y1

variable {r s t : Rect ℝ}

theorem contains_iff {p : Point ℝ} :
    r.contains p = true ↔ (r.x0 ≤ p.x ∧ p.x ≤ r.x1) ∧ r.y0 ≤ p.y ∧ p.y ≤ r.y1 := by
  simp only [contains, Bool.and_eq_true, decide_eq_true_eq]
  tauto

theorem within_iff (hr : r.Proper) :
    r.Within s ↔ ∀ p : Point ℝ, r.contains p = true → s.contains p = true := by
  obtain ⟨hx, hy⟩ := hr
  simp only [contains_iff]
  constructor
  · rintro ⟨hx0, hy0, hx1, hy1⟩ p ⟨⟨hleft, hright⟩, habove, hbelow⟩
    exact ⟨⟨hx0.trans hleft, hright.trans hx1⟩, hy0.trans habove, hbelow.trans hy1⟩
  · intro h
    obtain ⟨⟨hx0, -⟩, hy0, -⟩ := h ⟨r.x0, r.y0⟩ ⟨⟨le_rfl, hx⟩, le_rfl, hy⟩
    obtain ⟨⟨-, hx1⟩, -, hy1⟩ := h ⟨r.x1, r.y1⟩ ⟨⟨hx, le_rfl⟩, hy, le_rfl⟩
    exact ⟨hx0, hy0, hx1, hy1⟩

theorem union_within_iff : (r.union s).Within t ↔ r.Within t ∧ s.Within t := by
  simp only [Within, union, Scalar.min_real, Scalar.max_real, le_min_iff, max_le_iff]
  tauto

theorem foldl_union_within_iff {rects : List (Rect ℝ)} :
    (rects.foldl union r).Within t ↔ r.Within t ∧ ∀ s ∈ rects, s.Within t := by
  induction rects generalizing r with
  | nil => simp
  | cons s rects ih =>
    rw [List.foldl_cons, ih, union_within_iff, List.forall_mem_cons, and_assoc]

theorem Proper.of_within (hr : r.Proper) (h : r.Within s) : s.Proper := by
  obtain ⟨hx0, hy0, hx1, hy1⟩ := h
  exact ⟨hx0.trans (hr.1.trans hx1), hy0.trans (hr.2.trans hy1)⟩

theorem Within.refl (r : Rect ℝ) : r.Within r := ⟨le_rfl, le_rfl, le_rfl, le_rfl⟩

theorem Within.antisymm (h : r.Within s) (h' : s.Within r) : r = s := by
  obtain ⟨hx0, hy0, hx1, hy1⟩ := h
  obtain ⟨hx0', hy0', hx1', hy1'⟩ := h'
  cases r
  cases s
  rw [Rect.mk.injEq]
  exact ⟨le_antisymm hx0' hx0, le_antisymm hy0' hy0, le_antisymm hx1 hx1', le_antisymm hy1 hy1'⟩

theorem Proper.extend (hr : r.Proper) (p : Point ℝ) : (r.extend p).Proper :=
  hr.of_within (union_within_iff.mp (.refl _)).1

theorem Proper.foldl_extend (hr : r.Proper) (points : List (Point ℝ)) :
    (points.foldl Rect.extend r).Proper := by
  induction points generalizing r with
  | nil => exact hr
  | cons p points ih => exact ih (hr.extend p)

theorem Proper.inflate (hr : r.Proper) {d : ℝ} (hd : 0 ≤ d) : (r.inflate d).Proper := by
  obtain ⟨hx, hy⟩ := hr
  constructor <;> simp only [Rect.inflate] <;> linarith

theorem ofPoint_within_iff {p : Point ℝ} : (ofPoint p).Within r ↔ r.contains p = true := by
  rw [contains_iff]
  simp only [Within, ofPoint]
  tauto

theorem contains_inflate_of_near {p q : Point ℝ} {radius : ℝ} (hradius : 0 ≤ radius)
    (hq : r.contains q = true) (hnear : q.distanceSq p ≤ radius * radius) :
    (r.inflate radius).contains p = true := by
  obtain ⟨⟨hleft, hright⟩, habove, hbelow⟩ := contains_iff.mp hq
  have hsq : (q.x - p.x) * (q.x - p.x) + (q.y - p.y) * (q.y - p.y) ≤ radius * radius := hnear
  -- Each coordinate alone is within the radius.
  have hx : |q.x - p.x| ≤ radius := by
    refine abs_le_of_sq_le_sq ?_ hradius
    nlinarith [mul_self_nonneg (q.y - p.y)]
  have hy : |q.y - p.y| ≤ radius := by
    refine abs_le_of_sq_le_sq ?_ hradius
    nlinarith [mul_self_nonneg (q.x - p.x)]
  obtain ⟨hx0, hx1⟩ := abs_le.mp hx
  obtain ⟨hy0, hy1⟩ := abs_le.mp hy
  refine contains_iff.mpr ⟨⟨?_, ?_⟩, ?_, ?_⟩ <;> simp only [inflate] <;> linarith

end Rect

namespace Stroke

theorem bounds_eq_foldl_union {α : Type} [Scalar α] (s : Stroke α) : s.bounds =
    ((s.later.map Sample.pos).map Rect.ofPoint).foldl Rect.union (Rect.ofPoint s.first.pos) := by
  rw [List.foldl_map]
  rfl

theorem bounds_within_iff {s : Stroke ℝ} {r : Rect ℝ} :
    s.bounds.Within r ↔ ∀ p ∈ s.positions, r.contains p = true := by
  rw [bounds_eq_foldl_union, Rect.foldl_union_within_iff, Rect.ofPoint_within_iff, List.forall_mem_map]
  simp only [Rect.ofPoint_within_iff, positions, samples, List.map_cons, List.forall_mem_cons]

theorem bounds_contains {s : Stroke ℝ} {p : Point ℝ} (hp : p ∈ s.positions) :
    s.bounds.contains p = true :=
  bounds_within_iff.mp (.refl _) p hp

end Stroke

namespace Eraser

/-- The stroke has a sample within the radius of the point. -/
def Reaches {α : Type} [Scalar α] (p : Point α) (radius : α) (s : Stroke α) : Prop :=
  ∃ q ∈ s.positions, q.distanceSq p ≤ radius * radius

instance {α : Type} [Scalar α] (p : Point α) (radius : α) (s : Stroke α) :
    Decidable (Reaches p radius s) :=
  inferInstanceAs (Decidable (∃ q ∈ s.positions, _))

/-- The look at the bounds passes over no stroke that the samples do not. -/
theorem touches_iff {p : Point ℝ} {radius : ℝ} (hradius : 0 ≤ radius) {s : Stroke ℝ} :
    touches p radius s = true ↔ Reaches p radius s := by
  simp only [touches, Bool.and_eq_true, Stroke.hitTest, List.any_eq_true, decide_eq_true_eq]
  constructor
  · rintro ⟨-, hreaches⟩
    exact hreaches
  · rintro ⟨q, hq, hnear⟩
    exact ⟨Rect.contains_inflate_of_near hradius (Stroke.bounds_contains hq) hnear, q, hq, hnear⟩

end Eraser
end InkCanvas
