import Mathlib
import InkCanvas.Export
import InkCanvas.Proofs.Fit

/-! # What an exported picture shows

An export fits the ink of all strokes into the page, on the tighter axis, as large as a viewport that is
given no bounds can show it. Such a viewport does not scale below a tenth. So the page shows all ink if
and only if the ink is at most ten times as large as the room between the margins, and of strokes that
lie farther apart some are cut off (`Export.view_shows_iff`). -/

namespace InkCanvas

theorem Stroke.proper_inkBounds {s : Stroke ℝ} (h : 0 < s.style.width) : s.inkBounds.Proper := by
  have hbounds : s.bounds.Proper := Rect.Proper.foldl_extend ⟨le_rfl, le_rfl⟩ _
  exact hbounds.inflate (half_pos h).le

/-- The content lies where the ink of every stroke lies. -/
theorem contentBounds_within_iff {strokes : List (Stroke ℝ)} {bounds r : Rect ℝ}
    (h : contentBounds strokes = some bounds) :
    bounds.Within r ↔ ∀ s ∈ strokes, s.inkBounds.Within r := by
  cases strokes with
  | nil => cases h
  | cons s strokes =>
    cases h
    rw [Rect.foldl_union_within_iff, List.forall_mem_map, List.forall_mem_cons]

theorem proper_contentBounds {strokes : List (Stroke ℝ)} {bounds : Rect ℝ}
    (h : contentBounds strokes = some bounds) (hwidth : ∀ s ∈ strokes, 0 < s.style.width) :
    bounds.Proper := by
  cases strokes with
  | nil => cases h
  | cons s strokes =>
    have hwithin := (contentBounds_within_iff h).mp (.refl _) s (.head _)
    exact (Stroke.proper_inkBounds (hwidth s (.head _))).of_within hwithin

namespace Viewport

/-! ## Fitting -/

/-- The part of the canvas that a viewport shows in a part of the screen. -/
def under {α : Type} [Scalar α] (v : Viewport α) (screen : Rect α) : Rect α :=
  let upperLeft := v.toCanvas ⟨screen.x0, screen.y0⟩
  let lowerRight := v.toCanvas ⟨screen.x1, screen.y1⟩
  ⟨upperLeft.x, upperLeft.y, lowerRight.x, lowerRight.y⟩

theorem WithinBounds.contains_toScreen {v : Viewport ℝ} (h : v.WithinBounds) (screen : Rect ℝ)
    (p : Point ℝ) : screen.contains (v.toScreen p) = (v.under screen).contains p := by
  have hscale := h.scale_pos
  rw [Bool.eq_iff_iff]
  simp only [Rect.contains_iff, under, toScreen, toCanvas, h.effectiveScale_eq, div_le_iff₀ hscale,
    le_div_iff₀ hscale, sub_le_iff_le_add, le_sub_iff_add_le]

section Fitted

variable {r : Rect ℝ} {width height padding : ℝ}

theorem withinBounds_fit (r : Rect ℝ) (width height padding : ℝ) :
    (initial.fit r width height padding).WithinBounds :=
  withinBounds_initial.adjusted (.fit r width height padding)

/-- A fitted rectangle fits unless the scale is as small as it gets. -/
theorem scale_fit (hwidth : 2 * padding + 1 ≤ width) (hheight : 2 * padding + 1 ≤ height) :
    (initial.fit r width height padding).scale = 1 / 10 ∨
      r.width * (initial.fit r width height padding).scale ≤ width - 2 * padding ∧
        r.height * (initial.fit r width height padding).scale ≤ height - 2 * padding := by
  rcases lt_or_ge (fitted r (room width padding) (room height padding))
    (initial : Viewport ℝ).minScale with hsmall | hlarge
  · exact .inl ((scale_fit_of_lt hsmall).trans minScale_real)
  · have hmax : (initial : Viewport ℝ).maxScale ≤ 2 ^ 52 := by norm_num [initial, maxScale_real]
    have hfits := extents_fit withinBounds_initial.minScale_pos
      withinBounds_initial.minScale_le_maxScale hmax hlarge
    rw [room_of_le hwidth, room_of_le hheight] at hfits
    exact .inr hfits

/-- The fitted rectangle is shown in the middle of the page, so it clears both margins of an axis or
none. -/
theorem within_under_fit_iff :
    r.Within ((initial.fit r width height padding).under
        ⟨padding, padding, width - padding, height - padding⟩) ↔
      r.width * (initial.fit r width height padding).scale ≤ width - 2 * padding ∧
        r.height * (initial.fit r width height padding).scale ≤ height - 2 * padding := by
  have hbounds := withinBounds_fit r width height padding
  have hoffset : (initial.fit r width height padding).offset =
      anchored r.center ⟨width / 2, height / 2⟩ (initial.fit r width height padding).scale := rfl
  generalize initial.fit r width height padding = v at hbounds hoffset
  have hscale := hbounds.scale_pos
  simp only [Rect.Within, under, toCanvas, hbounds.effectiveScale_eq, hoffset, anchored, Rect.center,
    Rect.width, Rect.height, Scalar.half_real, div_le_iff₀ hscale, le_div_iff₀ hscale]
  constructor
  · rintro ⟨hx0, hy0, hx1, hy1⟩
    constructor <;> linarith
  · rintro ⟨hx, hy⟩
    refine ⟨?_, ?_, ?_, ?_⟩ <;> linarith

/-- The room between the margins holds the fitted rectangle if and only if it would hold it at the
least scale. -/
theorem within_under_fit_iff_minScale (hr : r.Proper) (hwidth : 2 * padding + 1 ≤ width)
    (hheight : 2 * padding + 1 ≤ height) :
    r.Within ((initial.fit r width height padding).under
        ⟨padding, padding, width - padding, height - padding⟩) ↔
      r.width * InkCanvas.minScale ≤ width - 2 * padding ∧
        r.height * InkCanvas.minScale ≤ height - 2 * padding := by
  have hleast : InkCanvas.minScale ≤ (initial.fit r width height padding).scale :=
    (withinBounds_fit r width height padding).minScale_le_scale
  rw [within_under_fit_iff]
  constructor
  · rintro ⟨hw, hh⟩
    exact ⟨(mul_le_mul_of_nonneg_left hleast (sub_nonneg.mpr hr.1)).trans hw,
      (mul_le_mul_of_nonneg_left hleast (sub_nonneg.mpr hr.2)).trans hh⟩
  · intro hroom
    rcases scale_fit hwidth hheight with hscale | hfits
    · rwa [hscale, ← minScale_real]
    · exact hfits

end Fitted

end Viewport

/-- What the margins leave of the page. -/
def ExportOptions.inside {α : Type} [Scalar α] (o : ExportOptions α) : Rect α :=
  ⟨o.padding, o.padding, Scalar.ofNat o.width.toNat - o.padding,
    Scalar.ofNat o.height.toNat - o.padding⟩

namespace Export

/-- An export shows the ink of all strokes between its margins if and only if a tenth of what they
cover fits there. -/
theorem view_shows_iff {strokes : List (Stroke ℝ)} {o : ExportOptions ℝ} (hne : strokes ≠ [])
    (hink : ∀ s ∈ strokes, 0 < s.style.width) (hwidth : 2 * o.padding + 1 ≤ o.width.toNat)
    (hheight : 2 * o.padding + 1 ≤ o.height.toNat) :
    ∃ bounds view, contentBounds strokes = some bounds ∧ view? strokes o = some view ∧
      ((∀ s ∈ strokes, ∀ p, s.inkBounds.contains p = true →
          o.inside.contains (view.toScreen p) = true) ↔
        bounds.width * minScale ≤ o.width.toNat - 2 * o.padding ∧
          bounds.height * minScale ≤ o.height.toNat - 2 * o.padding) := by
  obtain ⟨bounds, hcontent⟩ : ∃ bounds, contentBounds strokes = some bounds := by
    cases strokes with
    | nil => exact absurd rfl hne
    | cons s strokes => exact ⟨_, rfl⟩
  have hview : view? strokes o =
      some (Viewport.initial.fit bounds o.width.toNat o.height.toNat o.padding) := by
    rw [view?, hcontent]
    rfl
  have hbounds := Viewport.withinBounds_fit bounds o.width.toNat o.height.toNat o.padding
  have hfits := Viewport.within_under_fit_iff_minScale (proper_contentBounds hcontent hink) hwidth
    hheight
  generalize Viewport.initial.fit bounds o.width.toNat o.height.toNat o.padding = view
    at hview hbounds hfits
  refine ⟨bounds, view, hcontent, hview, ?_⟩
  calc (∀ s ∈ strokes, ∀ p, s.inkBounds.contains p = true →
        o.inside.contains (view.toScreen p) = true)
      ↔ ∀ s ∈ strokes, s.inkBounds.Within (view.under o.inside) := by
        refine forall₂_congr fun s hs => ?_
        simp only [Rect.within_iff (Stroke.proper_inkBounds (hink s hs)), hbounds.contains_toScreen]
    _ ↔ bounds.Within (view.under o.inside) := (contentBounds_within_iff hcontent).symm
    _ ↔ bounds.width * minScale ≤ o.width.toNat - 2 * o.padding ∧
          bounds.height * minScale ≤ o.height.toNat - 2 * o.padding := hfits

/-- Two dots so far apart that both are cut off. -/
theorem view_shows_iff_of_dots_far_apart :
    ∃ strokes view, strokes.map Stroke.positions = [[⟨0, 0⟩], [⟨100000, 0⟩]] ∧
      view? strokes (.standard : ExportOptions ℝ) = some view ∧
      ¬∀ s ∈ strokes, ∀ p, s.inkBounds.contains p = true →
        ExportOptions.standard.inside.contains (view.toScreen p) = true := by
  let strokes : List (Stroke ℝ) := [⟨⟨⟨0, 0⟩, 0, none⟩, [], ⟨.black, 10000⟩, .pen⟩,
    ⟨⟨⟨100000, 0⟩, 0, none⟩, [], ⟨.black, 10000⟩, .pen⟩]
  have hne : strokes ≠ [] := List.cons_ne_nil _ _
  have hink : ∀ s ∈ strokes, 0 < s.style.width := by simp [strokes]
  have hwidth : (800 : UInt32).toNat = 800 := rfl
  have hheight : (400 : UInt32).toNat = 400 := rfl
  obtain ⟨bounds, view, hcontent, hview, hshows⟩ := view_shows_iff (o := ExportOptions.standard) hne
    hink (by norm_num [ExportOptions.standard, hwidth])
    (by norm_num [ExportOptions.standard, hheight])
  refine ⟨strokes, view, rfl, hview, fun hall => ?_⟩
  obtain ⟨hroom, -⟩ := hshows.mp hall
  cases hcontent
  norm_num [ExportOptions.standard, hwidth, Rect.width, Rect.union, Stroke.inkBounds, Stroke.bounds,
    Rect.inflate, Rect.ofPoint, minScale_real] at hroom

end Export

end InkCanvas
