import InkCanvas.Proofs.Exact

/-! # What stays under an anchor

In exact arithmetic no change of a viewport is refused. Scaling about a point and pinching both carry
the viewport (`Viewport.carried`): they show under one place of the screen what was seen under another,
at the clamped scale, and the offset is computed with that scale and not with the one that was asked for
(`Viewport.WithinBounds.keeps_anchor`). -/

namespace InkCanvas
namespace Viewport

variable {v : Viewport ℝ}

theorem pan_real (v : Viewport ℝ) (delta : Point ℝ) :
    v.pan delta = .ok { v with offset := v.offset + delta } :=
  pan_eq_ok_iff.mpr ⟨rfl, rfl, rfl⟩

theorem set_real (v : Viewport ℝ) (scale : ℝ) (offset : Point ℝ) :
    v.set scale offset = .ok { v with scale := v.clampScale scale, offset } :=
  set_eq_ok_iff.mpr ⟨rfl, rfl, rfl⟩

theorem pinched_real (v : Viewport ℝ) (startMid currentMid : Point ℝ) (ratio : ℝ) :
    v.pinched startMid currentMid ratio = .ok
      { v with
        scale := v.clampScale (v.clampScale (v.scale * ratio))
        offset := anchored (v.toCanvas startMid) currentMid (v.clampScale (v.scale * ratio)) } :=
  v.set_real _ _

theorem pinched_eq_carried (v : Viewport ℝ) (startMid currentMid : Point ℝ) (ratio : ℝ) :
    v.pinched startMid currentMid ratio = v.carried startMid currentMid ratio := rfl

/-- Scaling about a point carries the viewport, unless the clamped scale stays as it is. -/
theorem zoomAt_real (v : Viewport ℝ) (anchor : Point ℝ) (factor : ℝ) :
    v.zoomAt anchor factor =
      if |v.clampScale (v.scale * factor) - v.scale| < Scalar.epsilon then .ok none
      else some <$> v.carried anchor anchor factor := by
  rw [← Scalar.magnitude_real]
  rfl

namespace WithinBounds

theorem pinched_self (h : v.WithinBounds) (mid : Point ℝ) : v.pinched mid mid 1 = .ok v := by
  have hscale : v.clampScale v.scale = v.scale := h.effectiveScale_eq
  have hoffset : anchored (v.toCanvas mid) mid v.scale = v.offset := by
    have hpos := h.scale_pos.ne'
    simp only [anchored, toCanvas, h.effectiveScale_eq, div_mul_cancel₀ _ hpos, sub_sub_cancel]
  rw [pinched_real, mul_one, hscale, hscale, hoffset]

/-- A viewport that is anchored at its own scale shows the anchored point at its place. -/
theorem toCanvas_of_anchored (h : v.WithinBounds) {p place : Point ℝ}
    (hoffset : v.offset = anchored p place v.scale) : v.toCanvas place = p := by
  have hscale := h.scale_pos.ne'
  simp only [toCanvas, h.effectiveScale_eq, hoffset, anchored]
  rw [sub_sub_cancel, sub_sub_cancel, mul_div_cancel_right₀ _ hscale, mul_div_cancel_right₀ _ hscale]

theorem exists_carried (h : v.WithinBounds) (source target : Point ℝ) (factor : ℝ) :
    ∃ w, v.carried source target factor = .ok w ∧ w.WithinBounds ∧
      w.scale = v.clampScale (v.scale * factor) ∧ w.toCanvas target = v.toCanvas source := by
  have hscale : v.clampScale (v.clampScale (v.scale * factor)) = v.clampScale (v.scale * factor) := by
    obtain ⟨hge, hle⟩ := clampScale_within h.minScale_le_maxScale (v.scale * factor)
    exact clampScale_of_within hge hle
  have hw := h.rescaled (v.scale * factor)
    (anchored (v.toCanvas source) target (v.clampScale (v.scale * factor)))
  refine ⟨_, ?_, hw, rfl, hw.toCanvas_of_anchored rfl⟩
  rw [carried, set_real, hscale]

/-- Scaling about an anchor gives the clamped scale and keeps the canvas point under the anchor; it is
the pinch that stays in its place, and reports no change only if the scale hardly changes. A pinch gives
the clamped scale and brings the canvas point from where it started to where it is now. A point goes to
the canvas and to the screen and comes back as it was, point by point and by the maps alike. -/
theorem keeps_anchor (h : v.WithinBounds) :
    (∀ anchor factor, ∃ w, v.pinched anchor anchor factor = .ok w ∧
      v.zoomAt anchor factor = .ok (if |w.scale - v.scale| < Scalar.epsilon then none else some w) ∧
      w.scale = v.clampScale (v.scale * factor) ∧ w.toCanvas anchor = v.toCanvas anchor) ∧
    (∀ startMid currentMid ratio, ∃ w, v.pinched startMid currentMid ratio = .ok w ∧
      w.scale = v.clampScale (v.scale * ratio) ∧ w.toCanvas currentMid = v.toCanvas startMid) ∧
    ∀ p, v.toScreen (v.toCanvas p) = p ∧ v.toCanvas (v.toScreen p) = p ∧
      v.inverse.apply p = v.toCanvas p ∧ v.transform.apply p = v.toScreen p := by
  refine ⟨?_, ?_, ?_⟩
  · intro anchor factor
    obtain ⟨w, hcarried, -, hscale, hanchor⟩ := h.exists_carried anchor anchor factor
    refine ⟨w, (v.pinched_eq_carried _ _ _).trans hcarried, ?_, hscale, hanchor⟩
    rw [zoomAt_real, hcarried, hscale]
    split <;> rfl
  · intro startMid currentMid ratio
    obtain ⟨w, hcarried, -, hscale, hanchor⟩ := h.exists_carried startMid currentMid ratio
    exact ⟨w, (v.pinched_eq_carried _ _ _).trans hcarried, hscale, hanchor⟩
  · intro p
    exact ⟨h.toScreen_toCanvas p, h.toCanvas_toScreen p, congrFun h.inverse_apply p,
      congrFun h.transform_apply p⟩

/-- A factor below zero is clamped to the least scale, and the anchor keeps its canvas point. -/
theorem keeps_anchor_of_negative_factor :
    let v : Viewport ℝ := .initial
    v.WithinBounds ∧ ∃ w, v.zoomAt ⟨200, 120⟩ (-3) = .ok (some w) ∧ w.scale = 1 / 10 ∧
      w.toCanvas ⟨200, 120⟩ = v.toCanvas ⟨200, 120⟩ := by
  intro v
  obtain ⟨hzoom, -, -⟩ := withinBounds_initial.keeps_anchor
  obtain ⟨w, -, hw, hscale, hanchor⟩ := hzoom ⟨200, 120⟩ (-3)
  have hleast : w.scale = 1 / 10 := by
    rw [hscale]
    norm_num [clampScale, Scalar.clamp_real, initial, minScale_real, maxScale_real]
  have hchanged : ¬|w.scale - v.scale| < Scalar.epsilon := by
    rw [hleast]
    norm_num [v, initial, Scalar.epsilon, abs_of_neg]
  rw [if_neg hchanged] at hw
  exact ⟨withinBounds_initial, w, hw, hleast, hanchor⟩

end WithinBounds
end Viewport
end InkCanvas
