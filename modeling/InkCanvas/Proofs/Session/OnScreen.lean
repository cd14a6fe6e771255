import InkCanvas.Proofs.Anchor
import InkCanvas.Proofs.Session.Ink

/-! # Frames drawn on the screen

A session keeps the curves of its strokes on the canvas and sees them through its viewport. In exact
arithmetic the frame is the one that is drawn on the screen itself, through the places where the samples
are seen and with lines as wide as they are seen (`Session.seen_as_drawn`). -/

namespace InkCanvas

variable {α : Type} [Scalar α]

namespace Session

/-- The frame drawn on the screen itself. -/
def onScreen (s : Session α) : Frame α where
  strokes := s.strokes.map fun ink => Mark.onScreen (some ink.id) ink.stroke s.view
  live := s.liveStroke?.map fun stroke => Mark.onScreen none stroke s.view
  view := s.view
  revision := s.revision

theorem redrawn_eq_onScreen {s : Session ℝ} (hview : s.view.WithinBounds) :
    s.redrawn = s.onScreen := by
  simp only [redrawn, onScreen, Mark.resolve_eq_onScreen hview]

/-- Seen through a viewport that comes from bounds in order by any changes, the curve through some
positions is the curve through the places where they are seen, as wide as it is seen there. So the frame
of every reachable session, with its kept curves, is the one drawn on the screen. -/
theorem seen_as_drawn :
    (∀ lo hi : ℝ, 0 < lo → lo ≤ hi → ∀ adjustments : List (Adjustment ℝ),
      let v := (Viewport.withBounds lo hi).after adjustments
      ∀ (positions : List (Point ℝ)) (width : ℝ),
        (InkPath.through positions width).transformed v.transform v.scale =
          .through (positions.map v.toScreen) (width * v.scale)) ∧
    ∀ s : Session ℝ, s.Reachable → s.frame = s.onScreen := by
  constructor
  · intro lo hi hlo hle adjustments v positions width
    have hv : v.WithinBounds := (Viewport.withinBounds_withBounds rfl rfl hlo hle).after adjustments
    exact InkPath.transformed_through hv positions width
  · intro s hs
    exact hs.coherent.frame.trans (redrawn_eq_onScreen hs.withinBounds)

/-- A bent line at twice the size, and a session that shows a dot and a line at its greatest scale. -/
theorem seen_as_drawn_of_zoomed_canvas :
    let s := (build (Config.standard : Config ℝ)).run [.beginStroke ⟨⟨1, 2⟩, 0, none⟩, .finishStroke,
      .beginStroke ⟨⟨3, 4⟩, 5, none⟩, .extendStroke ⟨⟨8, 4⟩, 6, none⟩, .zoom 200 ⟨9, 9⟩]
    (InkPath.through [⟨0, 0⟩, ⟨10, 10⟩, ⟨20, 0⟩] (6 : ℝ)).transformed
        (Viewport.mk 2 ⟨5, 7⟩ 1 4).transform 2 = .through [⟨5, 7⟩, ⟨25, 27⟩, ⟨45, 7⟩] 12 ∧
      s.Reachable ∧ s.frame = s.onScreen := by
  intro s
  have hset : (Viewport.withBounds (1 : ℝ) 4).set 2 ⟨5, 7⟩ = .ok ⟨2, ⟨5, 7⟩, 1, 4⟩ := by
    rw [Viewport.set_real, Viewport.clampScale_of_within] <;> norm_num [Viewport.withBounds]
  have hview : (Viewport.withBounds (1 : ℝ) 4).after [.set 2 ⟨5, 7⟩] = ⟨2, ⟨5, 7⟩, 1, 4⟩ :=
    Viewport.adjusted_of_ok (a := .set 2 ⟨5, 7⟩) hset
  have hscale : (Viewport.mk (2 : ℝ) ⟨5, 7⟩ 1 4).effectiveScale = 2 :=
    Viewport.clampScale_of_within (by norm_num) (by norm_num)
  have hcurve := seen_as_drawn.1 1 4 (by norm_num) (by norm_num) [.set 2 ⟨5, 7⟩]
    [⟨0, 0⟩, ⟨10, 10⟩, ⟨20, 0⟩] 6
  rw [hview] at hcurve
  have hc : ofConfig (Config.standard : Config ℝ) = .ok (build Config.standard) :=
    ofConfig_eq_ok_iff.mpr ⟨Config.fault?_eq_none_iff.mpr Config.valid_standard_real, rfl⟩
  have hs : s.Reachable := ⟨_, _, _, hc, rfl⟩
  refine ⟨hcurve.trans ?_, hs, seen_as_drawn.2 s hs⟩
  norm_num [Viewport.toScreen, hscale]

end Session
end InkCanvas
