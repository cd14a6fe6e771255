import Mathlib
import InkCanvas.Path.Trail
import InkCanvas.Proofs.Exact

/-! # The curve through a list of positions

A trail settles the step around a position only when the next one arrives, and draws the line to the
last one only when it is asked for its curve. What comes out has one step for each position
(`InkPath.Steps`). In exact arithmetic its pieces fit together without a corner, and each bent one
stays among the three positions around it (`InkPath.Smooth`). -/

namespace InkCanvas

open AffineMap (lineMap)

/-! ## Steps -/

section Steps

variable {α : Type} [Scalar α]

/-- What a curve does on its way to a position and on from there: it bends around each one, to halfway
to the next, and goes straight to the last. -/
def bends (p : Point α) : List (Point α) → List (PathStep α)
  | [] => [.line p]
  | q :: later => .quad p (p.midpoint q) :: bends q later

theorem Trail.path_foldl_add_drawn (radius : α) (body : List (PathStep α)) (p : Point α)
    (later : List (Point α)) :
    (later.foldl add ⟨radius, .drawn body p⟩).path = .curve (body ++ bends p later) := by
  induction later generalizing body p with
  | nil => rfl
  | cons q later ih =>
    rw [List.foldl_cons, add, ih, List.append_assoc]
    rfl

theorem InkPath.through_cons_cons (p q : Point α) (later : List (Point α)) (width : α) :
    through (p :: q :: later) width = .curve (.move p :: bends q later) :=
  Trail.path_foldl_add_drawn (Scalar.half width) [.move p] q later

theorem length_bends (p : Point α) (later : List (Point α)) :
    (bends p later).length = later.length + 1 := by
  induction later generalizing p with
  | nil => rfl
  | cons q later ih => rw [bends, List.length_cons, ih, List.length_cons]

theorem getElem?_bends {p q r : Point α} {later : List (Point α)} {i : ℕ}
    (hq : (p :: later)[i]? = some q) (hr : later[i]? = some r) :
    (bends p later)[i]? = some (.quad q (q.midpoint r)) := by
  induction later generalizing p i with
  | nil => cases hr
  | cons p' later ih =>
    cases i with
    | zero =>
      cases hq
      cases hr
      rfl
    | succ i => exact ih hq hr

theorem getLast?_cons_bends (step : PathStep α) (p : Point α) (later : List (Point α)) :
    (step :: bends p later).getLast? = (p :: later).getLast?.map .line := by
  induction later generalizing step p with
  | nil => rfl
  | cons q later ih => rw [bends, List.getLast?_cons_cons, ih, List.getLast?_cons_cons]

/-- One step for each position: the first puts the pen down, the last is a straight line, and each one
between bends around its position, to halfway to the next. -/
structure InkPath.Steps (positions : List (Point α)) (steps : List (PathStep α)) : Prop where
  length_eq : steps.length = positions.length
  first : steps.head? = positions.head?.map .move
  inner : ∀ i p q, positions[i + 1]? = some p → positions[i + 2]? = some q →
    steps[i + 1]? = some (.quad p (p.midpoint q))
  last : steps.getLast? = positions.getLast?.map .line

theorem InkPath.steps_bends (p q : Point α) (later : List (Point α)) :
    Steps (p :: q :: later) (.move p :: bends q later) where
  length_eq := by rw [List.length_cons, length_bends, List.length_cons, List.length_cons]
  first := rfl
  inner _ _ _ hq hr := getElem?_bends hq hr
  last := getLast?_cons_bends (.move p) q later

end Steps

/-! ## Pieces -/

/-- A piece of a curve, with its control points. -/
inductive Piece (α : Type) where
  | line (p q : Point α)
  | quad (p c q : Point α)
  | cubic (p c₁ c₂ q : Point α)

namespace Piece

section

variable {α : Type}

/-- Where the piece starts. -/
def start : Piece α → Point α
  | line p _ | quad p _ _ | cubic p _ _ _ => p

/-- Where the piece ends. -/
def stop : Piece α → Point α
  | line _ q | quad _ _ q | cubic _ _ _ q => q

variable [Scalar α]

/-- The displacement from the start of the piece to what it makes for there. -/
def departure : Piece α → Point α
  | line p q => q - p
  | quad p c _ => c - p
  | cubic p c₁ _ _ => c₁ - p

/-- The displacement to the end of the piece from what it comes from there. -/
def arrival : Piece α → Point α
  | line p q => q - p
  | quad _ c q => q - c
  | cubic _ _ c₂ q => q - c₂

/-- One piece goes on where and as another one ends. -/
def Continues (a b : Piece α) : Prop := a.stop = b.start ∧ a.arrival = b.departure

/-- The pieces that steps draw. The pen was put down at `home` and is now at `here`. -/
def ofStepsFrom (home here : Point α) : List (PathStep α) → List (Piece α)
  | [] => []
  | .move p :: rest => ofStepsFrom p p rest
  | .line p :: rest => line here p :: ofStepsFrom home p rest
  | .quad c p :: rest => quad here c p :: ofStepsFrom home p rest
  | .cubic c₁ c₂ p :: rest => cubic here c₁ c₂ p :: ofStepsFrom home p rest
  | .close :: rest => line here home :: ofStepsFrom home home rest

/-- The pieces of a curve. -/
def ofSteps (steps : List (PathStep α)) : List (Piece α) := ofStepsFrom .zero .zero steps

end

end Piece

/-- The coordinates of a point, as a vector. -/
def Point.coords (p : Point ℝ) : ℝ × ℝ := (p.x, p.y)

/-- The point that a piece reaches at a time between zero and one: every control point moves towards the
next one, and so does what is left of them, until one is left. -/
noncomputable def Piece.point (t : ℝ) : Piece ℝ → ℝ × ℝ
  | line p q => lineMap p.coords q.coords t
  | quad p c q => lineMap (lineMap p.coords c.coords t) (lineMap c.coords q.coords t) t
  | cubic p c₁ c₂ q =>
    let c := lineMap c₁.coords c₂.coords t
    lineMap (lineMap (lineMap p.coords c₁.coords t) c t)
      (lineMap c (lineMap c₂.coords q.coords t) t) t

/-- The pieces fit together without a corner and lead from the first position to the last, and each
bent one stays among three positions in a row. -/
structure InkPath.Smooth (positions : List (Point ℝ)) (pieces : List (Piece ℝ)) : Prop where
  chain : pieces.IsChain Piece.Continues
  start : pieces.head?.map Piece.start = positions.head?
  stop : pieces.getLast?.map Piece.stop = positions.getLast?
  within : ∀ i a q b, pieces[i]? = some (.quad a q b) →
    ∃ p r, positions[i]? = some p ∧ positions[i + 1]? = some q ∧ positions[i + 2]? = some r ∧
      ∀ t ∈ Set.Icc 0 1, (Piece.quad a q b).point t ∈ convexHull ℝ {p.coords, q.coords, r.coords}

/-! ## Exact curves -/

theorem Point.midpoint_sub (p q : Point ℝ) : p.midpoint q - p = q - p.midpoint q := by
  change Point.mk ((p.x + q.x) / 2 - p.x) ((p.y + q.y) / 2 - p.y) =
    ⟨q.x - (p.x + q.x) / 2, q.y - (p.y + q.y) / 2⟩
  congr 1 <;> ring

theorem coords_midpoint_mem_segment (p q : Point ℝ) :
    (p.midpoint q).coords ∈ segment ℝ p.coords q.coords := by
  have heq : (p.midpoint q).coords = midpoint ℝ p.coords q.coords := by
    ext <;> simp [Point.midpoint, Point.coords, midpoint_eq_smul_add] <;> ring
  rw [heq]
  exact midpoint_mem_segment p.coords q.coords

namespace Piece

variable {home here p q r : Point ℝ} {later : List (Point ℝ)}

/-- A bent piece stays wherever its control points are, if that is convex. -/
theorem point_quad_mem {S : Set (ℝ × ℝ)} (hS : Convex ℝ S) {p c q : Point ℝ} (hp : p.coords ∈ S)
    (hc : c.coords ∈ S) (hq : q.coords ∈ S) {t : ℝ} (ht : t ∈ Set.Icc 0 1) :
    (quad p c q).point t ∈ S :=
  hS.lineMap_mem (hS.lineMap_mem hp hc ht) (hS.lineMap_mem hc hq ht) ht

theorem exists_ofStepsFrom_bends (home here p : Point ℝ) (later : List (Point ℝ)) :
    ∃ piece rest, ofStepsFrom home here (bends p later) = piece :: rest ∧
      piece.start = here ∧ piece.departure = p - here := by
  cases later with
  | nil => exact ⟨_, _, rfl, rfl, rfl⟩
  | cons q later => exact ⟨_, _, rfl, rfl, rfl⟩

/-- Halfway between two positions the curve makes for the second as it came from the first. -/
theorem isChain_ofStepsFrom_bends (home here p : Point ℝ) (later : List (Point ℝ)) :
    (ofStepsFrom home here (bends p later)).IsChain Continues := by
  induction later generalizing here p with
  | nil => exact .singleton _
  | cons q later ih =>
    have hrest := ih (p.midpoint q) q
    obtain ⟨piece, rest, heq, hstart, hdeparture⟩ :=
      exists_ofStepsFrom_bends home (p.midpoint q) q later
    rw [bends, ofStepsFrom, heq, List.isChain_cons_cons]
    rw [heq] at hrest
    refine ⟨⟨hstart.symm, ?_⟩, hrest⟩
    rw [hdeparture]
    exact p.midpoint_sub q

theorem stop_ofStepsFrom_bends (home here p : Point ℝ) (later : List (Point ℝ)) :
    (ofStepsFrom home here (bends p later)).getLast?.map stop = (p :: later).getLast? := by
  induction later generalizing here p with
  | nil => rfl
  | cons q later ih =>
    have hrest := ih (p.midpoint q) q
    obtain ⟨piece, rest, heq, -, -⟩ := exists_ofStepsFrom_bends home (p.midpoint q) q later
    rw [heq] at hrest
    rw [bends, ofStepsFrom, heq, List.getLast?_cons_cons, hrest, List.getLast?_cons_cons]

/-- Along the curve the pen is always between the position before and the next one. -/
theorem within_ofStepsFrom_bends (hhere : here.coords ∈ segment ℝ p.coords q.coords) {i : ℕ}
    {a c b : Point ℝ} (h : (ofStepsFrom home here (bends q later))[i]? = some (quad a c b)) :
    ∃ d e, (p :: q :: later)[i]? = some d ∧ (q :: later)[i]? = some c ∧ later[i]? = some e ∧
      ∀ t ∈ Set.Icc 0 1, (quad a c b).point t ∈ convexHull ℝ {d.coords, c.coords, e.coords} := by
  induction later generalizing here p q i with
  | nil =>
    cases i with
    | zero => cases h
    | succ i => cases h
  | cons r later ih =>
    have hmid := coords_midpoint_mem_segment q r
    cases i with
    | succ i => exact ih hmid h
    | zero =>
      obtain ⟨rfl, rfl, rfl⟩ := Piece.quad.inj (Option.some.inj h)
      refine ⟨p, r, rfl, rfl, rfl, fun t ht => ?_⟩
      have hhull := convex_convexHull ℝ {p.coords, q.coords, r.coords}
      have hsub := subset_convexHull ℝ {p.coords, q.coords, r.coords}
      have hp : p.coords ∈ convexHull ℝ {p.coords, q.coords, r.coords} := hsub (by simp)
      have hq : q.coords ∈ convexHull ℝ {p.coords, q.coords, r.coords} := hsub (by simp)
      have hr : r.coords ∈ convexHull ℝ {p.coords, q.coords, r.coords} := hsub (by simp)
      exact point_quad_mem hhull (hhull.segment_subset hp hq hhere) hq
        (hhull.segment_subset hq hr hmid) ht

end Piece

theorem InkPath.smooth_bends (p q : Point ℝ) (later : List (Point ℝ)) :
    Smooth (p :: q :: later) (Piece.ofSteps (.move p :: bends q later)) where
  chain := Piece.isChain_ofStepsFrom_bends p p q later
  start := by
    obtain ⟨piece, rest, heq, hstart, -⟩ := Piece.exists_ofStepsFrom_bends p p q later
    rw [Piece.ofSteps, Piece.ofStepsFrom, heq, List.head?_cons, Option.map_some, hstart,
      List.head?_cons]
  stop := Piece.stop_ofStepsFrom_bends p p q later
  within _ _ _ _ h := Piece.within_ofStepsFrom_bends (left_mem_segment ℝ p.coords q.coords) h

/-- A trail through no position has drawn nothing, through one a dot, and through more than one a curve
with one step for each. In exact arithmetic the curve leads from the first position to the last without
a corner, and each bent piece stays among three positions in a row. -/
theorem InkPath.through_smooth :
    (∀ {α : Type} [Scalar α] (positions : List (Point α)) (width : α),
      (positions.foldl Trail.add (.ofWidth width)).path = through positions width ∧
      (positions = [] → through positions width = .empty) ∧
      (∀ p, positions = [p] → through positions width = .dot p (Scalar.half width)) ∧
      (2 ≤ positions.length →
        ∃ steps, through positions width = .curve steps ∧ Steps positions steps)) ∧
    ∀ (positions : List (Point ℝ)) (width : ℝ) (steps : List (PathStep ℝ)),
      through positions width = .curve steps → Smooth positions (Piece.ofSteps steps) := by
  constructor
  · intro α _ positions width
    refine ⟨rfl, ?_, ?_, ?_⟩
    · rintro rfl
      rfl
    · rintro p rfl
      rfl
    · intro hlength
      match positions, hlength with
      | p :: q :: later, _ => exact ⟨_, through_cons_cons p q later width, steps_bends p q later⟩
  · intro positions width steps hsteps
    match positions with
    | [] => cases hsteps
    | [p] => cases hsteps
    | p :: q :: later =>
      rw [through_cons_cons] at hsteps
      cases hsteps
      exact smooth_bends p q later

/-- Three positions: the one in the middle is bent around, and the curve stays among the three. -/
theorem InkPath.through_smooth_of_three :
    ∃ steps, through [⟨0, 0⟩, ⟨10, 10⟩, ⟨20, 0⟩] (2 : ℝ) = .curve steps ∧
      steps[1]? = some (.quad ⟨10, 10⟩ ⟨15, 5⟩) ∧
      ∀ t ∈ Set.Icc 0 1, (Piece.quad ⟨0, 0⟩ ⟨10, 10⟩ ⟨15, 5⟩).point t ∈
        convexHull ℝ {((0, 0) : ℝ × ℝ), (10, 10), (20, 0)} := by
  obtain ⟨-, -, -, hcurve⟩ :=
    through_smooth.1 [⟨0, 0⟩, ⟨10, 10⟩, ⟨20, 0⟩] (2 : ℝ)
  obtain ⟨steps, hsteps, hone⟩ := hcurve (by simp)
  have hmid : (⟨10, 10⟩ : Point ℝ).midpoint ⟨20, 0⟩ = ⟨15, 5⟩ := by
    change Point.mk ((10 + 20) / 2) ((10 + 0) / 2) = (⟨15, 5⟩ : Point ℝ)
    norm_num
  refine ⟨steps, hsteps, ?_, ?_⟩
  · rw [← hmid]
    exact hone.inner 0 _ _ rfl rfl
  · have hsmooth := through_smooth.2 _ _ steps hsteps
    rw [through_cons_cons] at hsteps
    cases hsteps
    obtain ⟨p, r, hp, -, hr, hwithin⟩ := hsmooth.within 0 _ _ _ rfl
    cases hp
    cases hr
    rwa [hmid] at hwithin

end InkCanvas
