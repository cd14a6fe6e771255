import InkCanvas.Proofs.Placement

/-! # Bounds are hulls

A rectangle is the hull of points if it contains all of them and each of its sides passes through one.
The bounds of a stroke are the hull of its samples (`Stroke.isHull_bounds`), in doubles as well, because
they are found by comparisons alone. It makes no difference whether the search starts from the first sample
or from sides that are turned inside out, beyond everything (`Stroke.foldl_extend_insideOut`). In exact
arithmetic the content of a canvas is the least rectangle around the ink of all strokes, in whatever order
and in whatever groups they are put together (`contentBounds_least`). -/

namespace InkCanvas

/-- The laws of an order that is not strict. -/
class LawfulOrder (α : Type) [Scalar α] : Prop extends LawfulScalar α where
  le_of_lt {a b : α} : a < b → a ≤ b
  le_trans {a b c : α} : a ≤ b → b ≤ c → a ≤ c

instance : LawfulOrder ℝ where
  le_of_lt := le_of_lt
  le_trans := le_trans

/-! ## Doubles -/

namespace Double

open Float.Model Float.Model.UnpackedFloat

variable {x y z : UnpackedFloat}

/-- The place of a value in the order of all that are defined. -/
def rank : UnpackedFloat → Int ×ₗ Int ×ₗ Int
  | .infinity .negative => toLex (-2, toLex (0, 0))
  | .finite .negative m e _ => toLex (-1, toLex (-e, -m))
  | .notANumber | .zero _ => toLex (0, toLex (0, 0))
  | .finite .positive m e _ => toLex (1, toLex (e, m))
  | .infinity .positive => toLex (2, toLex (0, 0))

theorem isLE_then_compare (e e' : Int) (m m' : Nat) :
    ((compare e e').then (compare m m')).isLE = true ↔ e < e' ∨ e = e' ∧ m ≤ m' := by
  rw [Ordering.isLE_then_iff_or]
  simp [Int.compare_eq_lt, Nat.isLE_compare]

theorem isGE_then_compare (e e' : Int) (m m' : Nat) :
    ((compare e e').then (compare m m')).isGE = true ↔ e' < e ∨ e = e' ∧ m' ≤ m := by
  rw [← Ordering.isLE_swap, Ordering.swap_then, Int.compare_swap, Nat.compare_swap,
    isLE_then_compare, eq_comm]

theorem le_iff_rank_le :
    x.le y = true ↔ x.isNaN = false ∧ y.isNaN = false ∧ rank x ≤ rank y := by
  rcases x with (_ | _) | _ | _ | ⟨_ | _, m, e, _⟩ <;>
    rcases y with (_ | _) | _ | _ | ⟨_ | _, m', e', _⟩ <;>
    simp [UnpackedFloat.le, UnpackedFloat.compare, UnpackedFloat.isNaN, rank,
      Prod.Lex.toLex_le_toLex, isLE_then_compare]
  -- What is left are the infinities and two negative numbers.
  · rfl
  · rfl
  · rfl
  · rfl
  · exact isGE_then_compare e e' m m'

theorem le_trans (hxy : x.le y = true) (hyz : y.le z = true) : x.le z = true := by
  obtain ⟨hx, -, hxy⟩ := le_iff_rank_le.mp hxy
  obtain ⟨-, hz, hyz⟩ := le_iff_rank_le.mp hyz
  exact le_iff_rank_le.mpr ⟨hx, hz, hxy.trans hyz⟩

theorem le_of_lt (h : x.lt y = true) : x.le y = true := by
  rw [UnpackedFloat.lt, beq_iff_eq] at h
  rw [UnpackedFloat.le, h]
  rfl

/-- The double that is farthest above zero. -/
def largest : Float := Float.ofBits 0x7FEFFFFFFFFFFFFF

theorem isFinite_largest : Scalar.isFinite largest = true := by decide

theorem isFinite_neg_largest : Scalar.isFinite (-largest) = true := by decide

theorem beq_of_le_of_not_lt {a b : Float} (hle : a ≤ b) (hlt : ¬a < b) : (a == b) = true := by
  rw [le_iff, UnpackedFloat.le] at hle
  rw [lt_iff, UnpackedFloat.lt] at hlt
  change (a.toModel.unpack.compare b.toModel.unpack == some .eq) = true
  cases hcompare : a.toModel.unpack.compare b.toModel.unpack with
  | none => rw [hcompare] at hle; cases hle
  | some o =>
    rw [hcompare] at hle hlt
    cases o with
    | lt => exact absurd rfl hlt
    | eq => rfl
    | gt => cases hle

theorem eq_of_beq {a b : Float} (h : (a == b) = true) (hzero : a ≠ 0) (hzero' : a ≠ -0) :
    a = b := by
  obtain ⟨-, -, heq | ⟨ha, -⟩ | ⟨ha, -⟩⟩ := Float.beq_iff_ne_nan_and_eq.mp h
  · exact heq
  · exact absurd ha hzero
  · exact absurd ha hzero'

theorem min_largest {a : Float} (h : a ≤ largest) : Scalar.min largest a = a := by
  rw [Scalar.min, LawfulScalar.beq_self_of_isFinite isFinite_largest]
  change (if a < largest then a else largest) = a
  split
  next => rfl
  next hlt =>
    have heq := beq_of_le_of_not_lt h hlt
    exact eq_of_beq (BEq.symm heq) (by decide) (by decide)

theorem max_neg_largest {a : Float} (h : -largest ≤ a) : Scalar.max (-largest) a = a := by
  rw [Scalar.max, LawfulScalar.beq_self_of_isFinite isFinite_neg_largest]
  change (if -largest < a then a else -largest) = a
  split
  next => rfl
  next hlt => exact eq_of_beq (beq_of_le_of_not_lt h hlt) (by decide) (by decide)

end Double

open Double

instance : LawfulOrder Float where
  le_of_lt h := le_iff.mpr (le_of_lt (lt_iff.mp h))
  le_trans hab hbc := le_iff.mpr (Double.le_trans (le_iff.mp hab) (le_iff.mp hbc))

/-! ## Hulls -/

/-- A coordinate of some point is still one when there is a point more, and so is that of the new one. -/
theorem Point.exists_coordinate {α : Type} {points : List (Point α)} {p : Point α} {f : Point α → α}
    {side side' : α} (h : ∃ q ∈ points, f q = side) (hside : side' = side ∨ side' = f p) :
    ∃ q ∈ points ++ [p], f q = side' := by
  rcases hside with rfl | rfl
  · obtain ⟨q, hq, hside⟩ := h
    exact ⟨q, List.mem_append_left _ hq, hside⟩
  · exact ⟨p, List.mem_append_right _ (.head _), rfl⟩

variable {α : Type} [Scalar α]

namespace Scalar

theorem min_eq_or (a b : α) : Scalar.min a b = a ∨ Scalar.min a b = b := by
  unfold Scalar.min
  split
  · exact .inr rfl
  · split
    · exact .inr rfl
    · exact .inl rfl

theorem max_eq_or (a b : α) : Scalar.max a b = a ∨ Scalar.max a b = b := by
  unfold Scalar.max
  split
  · exact .inr rfl
  · split
    · exact .inr rfl
    · exact .inl rfl

variable [LawfulOrder α] {a b : α}

theorem min_le (ha : isFinite a = true) (hb : isFinite b = true) :
    Scalar.min a b ≤ a ∧ Scalar.min a b ≤ b := by
  have hself := LawfulScalar.beq_self_of_isFinite ha
  rw [Scalar.min, hself]
  change (if b < a then b else a) ≤ a ∧ (if b < a then b else a) ≤ b
  split
  next hlt => exact ⟨LawfulOrder.le_of_lt hlt, le_refl_of_isFinite hb⟩
  next hlt =>
    exact ⟨le_refl_of_isFinite ha,
      LawfulScalar.le_of_not_lt (LawfulScalar.beq_self_of_isFinite hb) hself hlt⟩

theorem le_max (ha : isFinite a = true) (hb : isFinite b = true) :
    a ≤ Scalar.max a b ∧ b ≤ Scalar.max a b := by
  have hself := LawfulScalar.beq_self_of_isFinite ha
  rw [Scalar.max, hself]
  change a ≤ (if a < b then b else a) ∧ b ≤ (if a < b then b else a)
  split
  next hlt => exact ⟨LawfulOrder.le_of_lt hlt, le_refl_of_isFinite hb⟩
  next hlt =>
    exact ⟨le_refl_of_isFinite ha,
      LawfulScalar.le_of_not_lt hself (LawfulScalar.beq_self_of_isFinite hb) hlt⟩

end Scalar

namespace Rect

/-- A rectangle contains the points, and each of its sides passes through one of them. -/
structure IsHull (r : Rect α) (points : List (Point α)) : Prop where
  contains : ∀ p ∈ points, r.contains p = true
  left : ∃ p ∈ points, p.x = r.x0
  upper : ∃ p ∈ points, p.y = r.y0
  right : ∃ p ∈ points, p.x = r.x1
  lower : ∃ p ∈ points, p.y = r.y1

theorem contains_iff_sides {r : Rect α} {p : Point α} :
    r.contains p = true ↔ r.x0 ≤ p.x ∧ p.x ≤ r.x1 ∧ r.y0 ≤ p.y ∧ p.y ≤ r.y1 := by
  simp only [Rect.contains, Bool.and_eq_true, decide_eq_true_eq, and_assoc]

variable [LawfulOrder α] {r : Rect α} {points : List (Point α)} {p : Point α}

theorem isHull_ofPoint (hp : p.isFinite = true) : (ofPoint p).IsHull [p] := by
  obtain ⟨hx, hy⟩ := Point.isFinite_iff.mp hp
  have hx' := Scalar.le_refl_of_isFinite hx
  have hy' := Scalar.le_refl_of_isFinite hy
  have hself : p ∈ [p] := List.mem_singleton_self p
  refine ⟨?_, ⟨p, hself, rfl⟩, ⟨p, hself, rfl⟩, ⟨p, hself, rfl⟩, ⟨p, hself, rfl⟩⟩
  rw [List.forall_mem_singleton]
  exact contains_iff_sides.mpr ⟨hx', hx', hy', hy'⟩

theorem IsHull.extend (h : r.IsHull points) (hfinite : ∀ q ∈ points, q.isFinite = true)
    (hp : p.isFinite = true) : (r.extend p).IsHull (points ++ [p]) := by
  obtain ⟨hpx, hpy⟩ := Point.isFinite_iff.mp hp
  -- The sides are coordinates of points, so they are finite.
  have hside {f : Point α → α} {side : α} (hf : ∀ q : Point α, q.isFinite = true →
      Scalar.isFinite (f q) = true) (h : ∃ q ∈ points, f q = side) : Scalar.isFinite side = true := by
    obtain ⟨q, hq, rfl⟩ := h
    exact hf q (hfinite q hq)
  have hfx (q : Point α) (hq : q.isFinite = true) := (Point.isFinite_iff.mp hq).1
  have hfy (q : Point α) (hq : q.isFinite = true) := (Point.isFinite_iff.mp hq).2
  obtain ⟨hx0, hx0'⟩ := Scalar.min_le (hside hfx h.left) hpx
  obtain ⟨hy0, hy0'⟩ := Scalar.min_le (hside hfy h.upper) hpy
  obtain ⟨hx1, hx1'⟩ := Scalar.le_max (hside hfx h.right) hpx
  obtain ⟨hy1, hy1'⟩ := Scalar.le_max (hside hfy h.lower) hpy
  refine ⟨?_, Point.exists_coordinate h.left (Scalar.min_eq_or ..),
    Point.exists_coordinate h.upper (Scalar.min_eq_or ..),
    Point.exists_coordinate h.right (Scalar.max_eq_or ..),
    Point.exists_coordinate h.lower (Scalar.max_eq_or ..)⟩
  rw [List.forall_mem_append, List.forall_mem_singleton]
  refine ⟨fun q hq => ?_, contains_iff_sides.mpr ⟨hx0', hx1', hy0', hy1'⟩⟩
  obtain ⟨hleft, hright, habove, hbelow⟩ := contains_iff_sides.mp (h.contains q hq)
  exact contains_iff_sides.mpr ⟨LawfulOrder.le_trans hx0 hleft, LawfulOrder.le_trans hright hx1,
    LawfulOrder.le_trans hy0 habove, LawfulOrder.le_trans hbelow hy1⟩

theorem IsHull.foldl_extend (h : r.IsHull points) {more : List (Point α)}
    (hfinite : ∀ q ∈ points ++ more, q.isFinite = true) :
    (more.foldl Rect.extend r).IsHull (points ++ more) := by
  induction more generalizing r points with
  | nil => rwa [List.append_nil]
  | cons p more ih =>
    obtain ⟨hpoints, hp, hmore⟩ : (∀ q ∈ points, q.isFinite = true) ∧ p.isFinite = true ∧
        ∀ q ∈ more, q.isFinite = true := by
      rwa [List.forall_mem_append, List.forall_mem_cons] at hfinite
    rw [List.foldl_cons, ← List.singleton_append, ← List.append_assoc]
    refine ih (h.extend hpoints hp) ?_
    rwa [List.append_assoc, List.singleton_append]

end Rect

namespace Stroke

theorem isHull_bounds [LawfulOrder α] {s : Stroke α} (h : ∀ p ∈ s.positions, p.isFinite = true) :
    s.bounds.IsHull s.positions :=
  (Rect.isHull_ofPoint (h _ (.head _))).foldl_extend h

end Stroke

/-- Each coordinate lies between the two values. -/
def Point.Between (least greatest : α) (p : Point α) : Prop :=
  (least ≤ p.x ∧ p.x ≤ greatest) ∧ least ≤ p.y ∧ p.y ≤ greatest

/-! ## Contents -/

/-- Strokes that are put together two by two, one by one or in any other groups. -/
inductive Grouping (α : Type) where
  | single (s : Stroke α)
  | pair (g h : Grouping α)

namespace Grouping

/-- The strokes of a grouping, in order. -/
def strokes : Grouping α → List (Stroke α)
  | single s => [s]
  | pair g h => g.strokes ++ h.strokes

/-- The rectangle around all ink, put together like the strokes. -/
def bounds : Grouping α → Rect α
  | single s => s.inkBounds
  | pair g h => g.bounds.union h.bounds

theorem bounds_within_iff {g : Grouping ℝ} {r : Rect ℝ} :
    g.bounds.Within r ↔ ∀ s ∈ g.strokes, s.inkBounds.Within r := by
  induction g with
  | single s => rw [bounds, strokes, List.forall_mem_singleton]
  | pair g h ihg ihh => rw [bounds, strokes, Rect.union_within_iff, ihg, ihh, List.forall_mem_append]

/-- Neither the order nor the grouping makes a difference. -/
theorem bounds_eq {g : Grouping ℝ} {strokes : List (Stroke ℝ)} {bounds : Rect ℝ}
    (h : contentBounds strokes = some bounds) (hperm : g.strokes.Perm strokes) : g.bounds = bounds := by
  refine Rect.Within.antisymm ?_ ?_
  · rw [bounds_within_iff]
    exact fun s hs => (contentBounds_within_iff h).mp (.refl _) s (hperm.subset hs)
  · rw [contentBounds_within_iff h]
    exact fun s hs => bounds_within_iff.mp (.refl _) s (hperm.symm.subset hs)

end Grouping

theorem contentBounds_eq_none_iff {strokes : List (Stroke α)} :
    contentBounds strokes = none ↔ strokes = [] := by
  cases strokes with
  | nil => exact ⟨fun _ => rfl, fun _ => rfl⟩
  | cons => exact ⟨nofun, nofun⟩

/-- The bounds of a stroke of doubles that are within the range of doubles contain each sample, each of
their sides passes through a sample, and a search that starts from the ends of that range finds them. The
same holds in exact arithmetic. The ink reaches beyond the bounds by half the width on every side. There
is no rectangle around no strokes; around some there is a least one that contains the ink of each, and it
is found in whatever order and in whatever groups the strokes are put together. -/
theorem contentBounds_least :
    (∀ s : Stroke Float, (∀ p ∈ s.positions, p.Between (-largest) largest) →
      s.bounds.IsHull s.positions ∧
      s.positions.foldl Rect.extend (.insideOut (-largest) largest) = s.bounds ∧
      s.inkBounds = ⟨s.bounds.x0 - s.style.width / 2, s.bounds.y0 - s.style.width / 2,
        s.bounds.x1 + s.style.width / 2, s.bounds.y1 + s.style.width / 2⟩) ∧
    (∀ (s : Stroke ℝ) (least greatest : ℝ), (∀ p ∈ s.positions, p.Between least greatest) →
      s.bounds.IsHull s.positions ∧
      s.positions.foldl Rect.extend (.insideOut least greatest) = s.bounds ∧
      s.inkBounds = ⟨s.bounds.x0 - s.style.width / 2, s.bounds.y0 - s.style.width / 2,
        s.bounds.x1 + s.style.width / 2, s.bounds.y1 + s.style.width / 2⟩) ∧
    ∀ strokes : List (Stroke ℝ),
      (contentBounds strokes = none ↔ strokes = []) ∧
      ∀ bounds, contentBounds strokes = some bounds →
        (∀ s ∈ strokes, s.inkBounds.Within bounds) ∧
        (∀ r : Rect ℝ, (∀ s ∈ strokes, s.inkBounds.Within r) → bounds.Within r) ∧
        (∀ others, others.Perm strokes → contentBounds others = some bounds) ∧
        ∀ g : Grouping ℝ, g.strokes.Perm strokes → g.bounds = bounds := by
  refine ⟨fun s hs => ⟨?_, ?_, rfl⟩, fun s least greatest hs => ⟨?_, ?_, ?_⟩, fun strokes =>
    ⟨contentBounds_eq_none_iff, fun bounds h => ⟨?_, ?_, ?_, fun g hg => g.bounds_eq h hg⟩⟩⟩
  · refine Stroke.isHull_bounds fun p hp => Point.isFinite_iff.mpr ?_
    obtain ⟨⟨hleft, hright⟩, habove, hbelow⟩ := hs p hp
    exact ⟨LawfulScalar.isFinite_of_within isFinite_neg_largest isFinite_largest hleft hright,
      LawfulScalar.isFinite_of_within isFinite_neg_largest isFinite_largest habove hbelow⟩
  · exact Stroke.foldl_extend_insideOut
      (fun p hp => ⟨min_largest (hs p hp).1.2, min_largest (hs p hp).2.2⟩)
      (fun p hp => ⟨max_neg_largest (hs p hp).1.1, max_neg_largest (hs p hp).2.1⟩)
  · exact Stroke.isHull_bounds fun p _ => rfl
  · simp only [Point.Between] at hs
    refine Stroke.foldl_extend_insideOut ?_ ?_ <;> simp only [Scalar.min_real, Scalar.max_real]
    · exact fun p hp => ⟨min_eq_right (hs p hp).1.2, min_eq_right (hs p hp).2.2⟩
    · exact fun p hp => ⟨max_eq_right (hs p hp).1.1, max_eq_right (hs p hp).2.1⟩
  · rw [Stroke.inkBounds, Rect.inflate, Scalar.half_real]
  · exact (contentBounds_within_iff h).mp (.refl _)
  · exact fun r => (contentBounds_within_iff h).mpr
  · exact fun others hperm => (Export.contentBounds_perm hperm).trans h

/-- A stroke of three samples in doubles; three real strokes, the last of them put before the pair of the
others. -/
theorem contentBounds_least_of_dots_and_line :
    let s : Stroke Float := ⟨⟨⟨10, 20⟩, 0, none⟩, [⟨⟨30, 5⟩, 1, none⟩, ⟨⟨-7, 20⟩, 2, none⟩],
      ⟨.black, 4⟩, .pen⟩
    let dot (x : ℝ) : Stroke ℝ := ⟨⟨⟨x, 0⟩, 0, none⟩, [], ⟨.black, 4⟩, .pen⟩
    let line : Stroke ℝ := ⟨⟨⟨10, 20⟩, 5, none⟩, [⟨⟨30, 20⟩, 9, none⟩], ⟨.black, 2⟩, .eraser⟩
    (∀ p ∈ s.positions, p.Between (-largest) largest) ∧ s.bounds.IsHull s.positions ∧
      s.positions.foldl Rect.extend (.insideOut (-largest) largest) = s.bounds ∧
      (∀ p ∈ line.positions, p.Between 0 100) ∧ line.bounds.IsHull line.positions ∧
      ∃ bounds, contentBounds [dot 0, dot 50, line] = some bounds ∧ line.inkBounds.Within bounds ∧
        contentBounds [line, dot 50, dot 0] = some bounds ∧
        (Grouping.pair (.single line) (.pair (.single (dot 0)) (.single (dot 50)))).bounds = bounds := by
  intro s dot line
  obtain ⟨hdoubles, hreals, hcontent⟩ := contentBounds_least
  have hs : ∀ p ∈ s.positions, p.Between (-largest) largest := by
    unfold Point.Between
    decide +kernel
  have hline : ∀ p ∈ line.positions, p.Between 0 100 := by
    norm_num [line, Stroke.positions, Stroke.samples, Point.Between]
  obtain ⟨hhull, hsearch, -⟩ := hdoubles s hs
  have horder : [line, dot 50, dot 0].Perm [dot 0, dot 50, line] :=
    List.reverse_perm [dot 0, dot 50, line]
  have hgroups : [line, dot 0, dot 50].Perm [dot 0, dot 50, line] :=
    @List.perm_append_comm _ [line] [dot 0, dot 50]
  obtain ⟨bounds, hbounds⟩ : ∃ bounds, contentBounds [dot 0, dot 50, line] = some bounds := ⟨_, rfl⟩
  obtain ⟨hwithin, -, hothers, hgrouping⟩ := (hcontent [dot 0, dot 50, line]).2 bounds hbounds
  exact ⟨hs, hhull, hsearch, hline, (hreals line 0 100 hline).1, bounds, hbounds,
    hwithin line (.tail _ (.tail _ (.head _))), hothers _ horder, hgrouping _ hgroups⟩

end InkCanvas
