import InkCanvas.Proofs.Session.Reachable

/-! # The revision tells when to paint again

A call moves the revision by at most two, and by at least one if it changes what is on the screen.
The revision wraps around after `2⁶⁴` moves, so between two moments that are fewer than `2⁶³` calls
apart it cannot come back to where it was: the same revision means the same frame
(`Session.run_frame_eq_of_revision_eq`). -/

namespace InkCanvas
namespace Session

variable {α : Type}

/-- All that a frame is made from is the same. -/
structure SameCanvas (s t : Session α) : Prop where
  timeline : t.timeline = s.timeline
  live : t.live = s.live
  view : t.view = s.view
  cache : t.cache = s.cache

theorem SameCanvas.refl (s : Session α) : SameCanvas s s := ⟨rfl, rfl, rfl, rfl⟩

theorem SameCanvas.trans {s t u : Session α} (h : SameCanvas s t) (h' : SameCanvas t u) :
    SameCanvas s u where
  timeline := h'.timeline.trans h.timeline
  live := h'.live.trans h.live
  view := h'.view.trans h.view
  cache := h'.cache.trans h.cache

theorem SameCanvas.strokes {s t : Session α} (h : SameCanvas s t) : t.strokes = s.strokes :=
  congrArg Timeline.present h.timeline

variable [Scalar α] {s t : Session α}

theorem SameCanvas.frame (h : SameCanvas s t) (hrevision : t.revision = s.revision) :
    t.frame = s.frame := by
  unfold Session.frame
  rw [h.strokes, h.live, h.view, h.cache, hrevision]

/-! ## Calls and runs -/

theorem Unseen.sameCanvas (h : Unseen s t) : SameCanvas s t := by
  cases h <;> exact ⟨rfl, rfl, rfl, rfl⟩

theorem Unseen.revision (h : Unseen s t) : t.revision = s.revision := by
  cases h <;> rfl

/-- A call moves the revision at most twice, and not at all only if nothing on the screen changes. -/
theorem perform_revision (s : Session α) (a : Action α) : ∃ n ≤ 2,
    (s.perform a).1.revision = s.revision + .ofNat n ∧ (n = 0 → SameCanvas s (s.perform a).1) := by
  obtain ⟨t, n, unseen, few, edits⟩ := s.perform_steps a
  refine ⟨n, few, ?_, ?_⟩
  · rw [edits.revision, unseen.revision]
  · rintro rfl
    cases edits
    exact unseen.sameCanvas

/-- The moves of the calls of a run add up. -/
theorem run_revision (s : Session α) (actions : List (Action α)) : ∃ n ≤ 2 * actions.length,
    (s.run actions).revision = s.revision + .ofNat n ∧ (n = 0 → SameCanvas s (s.run actions)) := by
  induction actions generalizing s with
  | nil => exact ⟨0, Nat.le_refl 0, by simp, fun _ => .refl s⟩
  | cons a actions ih =>
    obtain ⟨first, hfirst, hmove, hsame⟩ := s.perform_revision a
    obtain ⟨rest, hrest, hmoves, hsames⟩ := ih (s.perform a).1
    refine ⟨first + rest, ?_, ?_, ?_⟩
    · rw [List.length_cons]
      omega
    · rw [run_cons, hmoves, hmove, UInt64.ofNat_add, UInt64.add_assoc]
    · intro hzero
      have hstill := hsame (Nat.eq_zero_of_add_eq_zero_right hzero)
      have hstills := hsames (Nat.eq_zero_of_add_eq_zero_left hzero)
      exact hstill.trans hstills

/-- Of two moments with fewer than `2⁶³` calls between them, the later one shows the same frame as the
earlier one if it has the same revision. Each call moves the revision by at most two, and one that
changes the strokes, the stroke being drawn or the viewport moves it. -/
theorem run_frame_eq_of_revision_eq (s : Session α) :
    (∀ between : List (Action α), between.length < 2 ^ 63 →
      (s.run between).revision = s.revision →
      (s.run between).frame = s.frame ∧ (s.run between).strokes = s.strokes ∧
        (s.run between).live = s.live ∧ (s.run between).view = s.view) ∧
    ∀ a, ∃ n ≤ 2, (s.perform a).1.revision = s.revision + .ofNat n ∧
      (n = 0 → (s.perform a).1.strokes = s.strokes ∧ (s.perform a).1.live = s.live ∧
        (s.perform a).1.view = s.view) := by
  constructor
  · intro between hfew hrevision
    obtain ⟨n, hn, hmoves, hsame⟩ := s.run_revision between
    -- Too few moves to come round to the same revision.
    have hzero : n = 0 := by
      rw [hmoves] at hrevision
      exact eq_zero_of_add_ofNat_eq (by omega) hrevision
    have hcanvas := hsame hzero
    exact ⟨hcanvas.frame hrevision, hcanvas.strokes, hcanvas.live, hcanvas.view⟩
  · intro a
    obtain ⟨n, hn, hmove, hsame⟩ := s.perform_revision a
    refine ⟨n, hn, hmove, ?_⟩
    intro hzero
    have hcanvas := hsame hzero
    exact ⟨hcanvas.strokes, hcanvas.live, hcanvas.view⟩

/-- A stroke is on the canvas, and what follows is of no avail: the eraser misses, there is nothing to
redo and no stroke to extend, the settings change and a contact that is not down moves. -/
theorem run_frame_eq_of_calls_without_effect :
    let s := (build (Config.standard : Config Float)).run
      [.beginStroke ⟨⟨1, 2⟩, 0, none⟩, .extendStroke ⟨⟨3, 4⟩, 5, none⟩, .finishStroke]
    let between : List (Action Float) := [.eraseAt ⟨500, 500⟩, .redo, .extendStroke ⟨⟨7, 7⟩, 9, none⟩,
      .setTool .eraser, .setWidth 0, .handle ⟨1, .touch, .move, ⟨5, 5⟩, 3, none⟩, .takeNotices]
    s.strokes.length = 1 ∧ between.length < 2 ^ 63 ∧ (s.run between).revision = s.revision ∧
      (s.run between).frame = s.frame := by
  intro s between
  have hfew : between.length < 2 ^ 63 := by decide
  have hrevision : (s.run between).revision = s.revision := by decide +kernel
  obtain ⟨hframe, -⟩ := (run_frame_eq_of_revision_eq s).1 between hfew hrevision
  exact ⟨by decide +kernel, hfew, hrevision, hframe⟩

end Session
end InkCanvas
