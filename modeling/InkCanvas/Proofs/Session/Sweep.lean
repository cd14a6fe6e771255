import InkCanvas.Proofs.Session.Erasure

/-! # Sweeps of the eraser

A sweep erases at one point after the other. What it leaves are the strokes that none of the points hits,
in their order, so neither the order of the points nor how often each of them comes makes a difference,
and once the eraser has been at a point there is nothing left to remove there
(`Session.Reachable.sweep_order_free`). -/

namespace InkCanvas
namespace Session

variable {α : Type} [Scalar α] {s : Session α} {p : Point α} {points : List (Point α)}

/-- The eraser of the session, at the point, hits the stroke. -/
def hitAt (s : Session α) (p : Point α) (ink : Inked α) : Bool :=
  Eraser.touches p s.config.eraserRadius ink.stroke

/-- The eraser hits the stroke at some of the points. -/
def hitAtAny (s : Session α) (points : List (Point α)) (ink : Inked α) : Bool :=
  points.any fun p => s.hitAt p ink

/-- The number of strokes that a sweep removes. -/
def sweptCount (s : Session α) : List (Point α) → Nat
  | [] => 0
  | p :: points => (s.eraseAt p).2 + (s.eraseAt p).1.sweptCount points

theorem hitAt_of_config {t : Session α} (h : t.config = s.config) : t.hitAt = s.hitAt := by
  funext p ink
  rw [hitAt, h]
  rfl

theorem hitAtAny_of_config {t : Session α} (h : t.config = s.config) : t.hitAtAny = s.hitAtAny := by
  funext points ink
  rw [hitAtAny, hitAt_of_config h]
  rfl

theorem hitAtAny_congr {points' : List (Point α)} (h : ∀ p, p ∈ points' ↔ p ∈ points) :
    s.hitAtAny points' = s.hitAtAny points := by
  funext ink
  rw [Bool.eq_iff_iff, hitAtAny, hitAtAny, List.any_eq_true, List.any_eq_true]
  simp only [h]

/-! ## One point -/

theorem Reachable.eraseAt_eq_hitAt (hs : s.Reachable) (hp : p.isFinite = true) :
    s.eraseAt p =
      if s.strokes.countP (s.hitAt p) = 0 then (s, 0)
      else (s.commit (s.strokes.filter fun ink => !s.hitAt p ink), s.strokes.countP (s.hitAt p)) :=
  hs.eraseAt_eq hp rfl

theorem Reachable.eraseAt_of_not_hit (hs : s.Reachable) (hp : p.isFinite = true)
    (h : ∀ ink ∈ s.strokes, s.hitAt p ink = false) : s.eraseAt p = (s, 0) := by
  rw [hs.eraseAt_eq_hitAt hp, if_pos]
  simpa [List.countP_eq_zero] using h

/-- The eraser leaves the strokes that it does not hit, and tells how many the others are. -/
theorem Reachable.of_eraseAt (hs : s.Reachable) (hp : p.isFinite = true) :
    (s.eraseAt p).1.strokes = s.strokes.filter (fun ink => !s.hitAt p ink) ∧
      (s.eraseAt p).2 = s.strokes.countP (s.hitAt p) := by
  rw [hs.eraseAt_eq_hitAt hp]
  split
  next hnone =>
    refine ⟨?_, hnone.symm⟩
    rw [List.countP_eq_zero] at hnone
    exact (List.filter_eq_self.mpr (by simpa using hnone)).symm
  next => exact ⟨hs.bounded.strokes_commit List.filter_sublist, rfl⟩

theorem Reachable.eraseAt (hs : s.Reachable) (p : Point α) : (s.eraseAt p).1.Reachable :=
  hs.run [.eraseAt p]

theorem eraseAt_config (s : Session α) (p : Point α) : (s.eraseAt p).1.config = s.config :=
  s.run_config [.eraseAt p]

/-! ## Sweeps -/

theorem run_eraseAt_cons (s : Session α) (p : Point α) (points : List (Point α)) :
    s.run ((p :: points).map .eraseAt) = (s.eraseAt p).1.run (points.map .eraseAt) := rfl

theorem Reachable.sweep_strokes (hs : s.Reachable) (hpoints : ∀ p ∈ points, p.isFinite = true) :
    (s.run (points.map .eraseAt)).strokes =
      s.strokes.filter fun ink => !s.hitAtAny points ink := by
  induction points generalizing s with
  | nil => simp [hitAtAny]
  | cons p points ih =>
    obtain ⟨hp, hpoints⟩ := List.forall_mem_cons.mp hpoints
    rw [run_eraseAt_cons, ih (hs.eraseAt p) hpoints, (hs.of_eraseAt hp).1, List.filter_filter,
      hitAtAny_of_config (s.eraseAt_config p)]
    simp only [hitAtAny, List.any_cons, Bool.not_or, Bool.and_comm]

theorem Reachable.sweptCount_add_length (hs : s.Reachable)
    (hpoints : ∀ p ∈ points, p.isFinite = true) :
    s.sweptCount points + (s.run (points.map .eraseAt)).strokes.length = s.strokes.length := by
  induction points generalizing s with
  | nil => exact Nat.zero_add _
  | cons p points ih =>
    obtain ⟨hp, hpoints⟩ := List.forall_mem_cons.mp hpoints
    obtain ⟨hstrokes, hcount⟩ := hs.of_eraseAt hp
    have hrest := ih (hs.eraseAt p) hpoints
    have hone := countP_add_length_filter_not (s.hitAt p) s.strokes
    rw [← hstrokes, ← hcount] at hone
    rw [sweptCount, run_eraseAt_cons]
    omega

/-- A sweep removes the strokes that it hits, each of them once. -/
theorem Reachable.sweptCount_eq (hs : s.Reachable) (hpoints : ∀ p ∈ points, p.isFinite = true) :
    s.sweptCount points = s.strokes.countP (s.hitAtAny points) := by
  have hswept := hs.sweptCount_add_length hpoints
  have hsplit := countP_add_length_filter_not (s.hitAtAny points) s.strokes
  rw [hs.sweep_strokes hpoints] at hswept
  omega

/-- A sweep leaves the strokes that none of its points hits, in their order, and removes as many as there
are others. Another sweep over the same points, in any order and with any of them repeated, leaves the same
strokes and removes as many. Erasing again where the sweep has been removes nothing and leaves the whole
session, its history as well, as it is. -/
theorem Reachable.sweep_order_free (hs : s.Reachable) (hpoints : ∀ p ∈ points, p.isFinite = true) :
    let t := s.run (points.map .eraseAt)
    t.strokes = s.strokes.filter (fun ink => !s.hitAtAny points ink) ∧
    s.sweptCount points = s.strokes.countP (s.hitAtAny points) ∧
    (∀ points' : List (Point α), (∀ p, p ∈ points' ↔ p ∈ points) →
      (s.run (points'.map .eraseAt)).strokes = t.strokes ∧
        s.sweptCount points' = s.sweptCount points) ∧
    ∀ p ∈ points, t.perform (.eraseAt p) = (t, .removed 0) := by
  intro t
  have ht : t.strokes = s.strokes.filter fun ink => !s.hitAtAny points ink :=
    hs.sweep_strokes hpoints
  have hcount := hs.sweptCount_eq hpoints
  refine ⟨ht, hcount, fun points' hsame => ?_, fun p hp => ?_⟩
  · have hpoints' : ∀ p ∈ points', p.isFinite = true := fun p hp => hpoints p ((hsame p).mp hp)
    rw [ht, hcount, hs.sweep_strokes hpoints', hs.sweptCount_eq hpoints', hitAtAny_congr hsame]
    exact ⟨rfl, rfl⟩
  · have hreachable : t.Reachable := hs.run _
    have hmissed : ∀ ink ∈ t.strokes, t.hitAt p ink = false := by
      intro ink hink
      rw [hitAt_of_config (s.run_config _)]
      rw [ht, List.mem_filter, Bool.not_eq_true', hitAtAny, List.any_eq_false] at hink
      simpa using hink.2 p hp
    rw [perform, hreachable.eraseAt_of_not_hit (hpoints p hp) hmissed]
    rfl

/-- Four dots, of which a sweep takes three, and comes to one point twice. -/
theorem sweep_order_free_of_four_dots :
    let c : Config Float := Config.standard
    let dot (x : Float) : List (Action Float) := [.beginStroke ⟨⟨x, 0⟩, 0, none⟩, .finishStroke]
    let s := (build c).run (dot 0 ++ dot 50 ++ dot 55 ++ dot 90)
    let sweep : List (Point Float) := [⟨52, 0⟩, ⟨0, 4⟩, ⟨52, 0⟩]
    let back : List (Point Float) := [⟨0, 4⟩, ⟨52, 0⟩]
    let t := s.run (sweep.map .eraseAt)
    s.Reachable ∧ (∀ p ∈ sweep, p.isFinite = true) ∧ (∀ p, p ∈ back ↔ p ∈ sweep) ∧
      t.strokes.map Inked.id = [4] ∧ s.sweptCount sweep = 3 ∧
      (s.run (back.map .eraseAt)).strokes = t.strokes ∧ s.sweptCount back = 3 ∧
      t.perform (.eraseAt ⟨52, 0⟩) = (t, .removed 0) := by
  intro c dot s sweep back t
  have hc : ofConfig c = .ok (build c) :=
    ofConfig_eq_ok_iff.mpr ⟨Option.isNone_iff_eq_none.mp (by decide +kernel), rfl⟩
  have hs : s.Reachable := ⟨_, _, _, hc, rfl⟩
  have hfinite : ∀ p ∈ sweep, p.isFinite = true := by decide +kernel
  have hsame : ∀ p, p ∈ back ↔ p ∈ sweep := by
    intro p
    simp only [back, sweep, List.mem_cons, List.not_mem_nil, or_false]
    tauto
  obtain ⟨-, -, hback, hagain⟩ := hs.sweep_order_free hfinite
  have hcount : s.sweptCount sweep = 3 := by decide +kernel
  obtain ⟨hstrokes, hremoved⟩ := hback back hsame
  exact ⟨hs, hfinite, hsame, by decide +kernel, hcount, hstrokes, hremoved.trans hcount,
    hagain _ List.mem_cons_self⟩

end Session
end InkCanvas
