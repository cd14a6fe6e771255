import Mathlib
import InkCanvas.Proofs.Bounds

/-! # Fitting a rectangle

An axis asks for the scale at which its extent fills the room between the margins, and for none if its
extent counts as none (`Viewport.filling`). In exact arithmetic the smaller of the two scales is taken as
far as the bounds allow. So the rectangle lies in the middle of the screen, it lies between the margins
unless it would have to be shown smaller than the bounds allow, and it fills an axis unless it would have
to be shown larger (`Viewport.fit_centers_and_fills`). -/

namespace InkCanvas
namespace Viewport

/-- The room between the margins: never less than one. -/
noncomputable def room (extent padding : ℝ) : ℝ := max (extent - 2 * padding) 1

/-- The scale at which an extent fills the room given to it. An extent that counts as none has room at
any scale. -/
noncomputable def filling (space extent : ℝ) : WithTop ℝ :=
  if Scalar.epsilon < extent then ↑(space / extent) else ⊤

/-- The scale at which a rectangle fits and fills an axis, before it is clamped. -/
noncomputable def fitted (r : Rect ℝ) (width height : ℝ) : WithTop ℝ :=
  min (filling width r.width) (filling height r.height)

/-- Where a rectangle of the canvas is on the screen. -/
def image {α : Type} [Scalar α] (v : Viewport α) (r : Rect α) : Rect α :=
  let upperLeft := v.toScreen ⟨r.x0, r.y0⟩
  let lowerRight := v.toScreen ⟨r.x1, r.y1⟩
  ⟨upperLeft.x, upperLeft.y, lowerRight.x, lowerRight.y⟩

/-! ## Images -/

namespace WithinBounds

variable {v : Viewport ℝ} (h : v.WithinBounds) (r : Rect ℝ)

include h

theorem contains_image (p : Point ℝ) : (v.image r).contains (v.toScreen p) = r.contains p := by
  have hscale := h.scale_pos
  rw [Bool.eq_iff_iff, Rect.contains_iff, Rect.contains_iff]
  simp only [image, toScreen, h.effectiveScale_eq, add_le_add_iff_right, mul_le_mul_iff_left₀ hscale]

theorem width_image : (v.image r).width = r.width * v.scale := by
  simp only [image, toScreen, Rect.width, h.effectiveScale_eq, add_sub_add_right_eq_sub, sub_mul]

theorem height_image : (v.image r).height = r.height * v.scale := by
  simp only [image, toScreen, Rect.height, h.effectiveScale_eq, add_sub_add_right_eq_sub, sub_mul]

end WithinBounds

/-! ## Extents -/

theorem one_le_room (extent padding : ℝ) : 1 ≤ room extent padding := le_max_right _ _

theorem room_of_le {extent padding : ℝ} (h : 2 * padding + 1 ≤ extent) :
    room extent padding = extent - 2 * padding :=
  max_eq_left (le_sub_iff_add_le'.mpr h)

section Extent

variable {space extent scale : ℝ}

theorem extent_mul_of_filling (h : filling space extent = scale) : extent * scale = space := by
  unfold filling at h
  split at h
  next hextent =>
    rw [← WithTop.coe_inj.mp h]
    exact mul_div_cancel₀ space (Scalar.epsilon_real_pos.trans hextent).ne'
  next => cases h

/-- An extent has room at each scale up to the one that it asks for. One that counts as none has room at
any scale that does not make it more than one. -/
theorem extent_mul_le (hspace : 1 ≤ space) (hpos : 0 ≤ scale) (hmax : scale ≤ 2 ^ 52)
    (h : scale ≤ filling space extent) : extent * scale ≤ space := by
  unfold filling at h
  split at h
  next hextent =>
    have hextent : 0 < extent := Scalar.epsilon_real_pos.trans hextent
    rw [mul_comm]
    exact (le_div_iff₀ hextent).mp (WithTop.coe_le_coe.mp h)
  next hextent =>
    calc extent * scale ≤ Scalar.epsilon * 2 ^ 52 := by
          gcongr
          · exact Scalar.epsilon_real_pos.le
          · exact not_lt.mp hextent
      _ = 1 := by norm_num [Scalar.epsilon]
      _ ≤ space := hspace

end Extent

/-! ## The scale -/

section Scale

variable (v : Viewport ℝ) (r : Rect ℝ) (width height padding : ℝ)

theorem filling_eq_elim (space extent : ℝ) :
    filling space extent = (fillScale space extent).elim ⊤ WithTop.some := by
  unfold filling fillScale
  split <;> rfl

theorem fitted_eq_elim : fitted r width height = (fitScale r width height).elim ⊤ WithTop.some := by
  rw [fitted, filling_eq_elim, filling_eq_elim, fitScale]
  cases fillScale width r.width with
  | none => cases fillScale height r.height with
    | none => exact min_self _
    | some sy => exact min_eq_right le_top
  | some sx => cases fillScale height r.height with
    | none => exact min_eq_left le_top
    | some sy =>
      change min (sx : WithTop ℝ) sy = (Scalar.min sx sy : ℝ)
      rw [Scalar.min_real, WithTop.coe_min]

theorem scale_fit_eq : (v.fit r width height padding).scale =
    v.clampScale ((fitScale r (room width padding) (room height padding)).getD 1) := by
  simp only [fit, room, Scalar.max_real, Scalar.ofNat_real, Nat.cast_ofNat, mul_comm padding]

/-- The scale is the one that is asked for, clamped, or one, clamped, if none is. -/
theorem scale_fit_cases :
    (∃ s : ℝ, fitted r (room width padding) (room height padding) = s ∧
      (v.fit r width height padding).scale = v.clampScale s) ∨
    fitted r (room width padding) (room height padding) = ⊤ ∧
      (v.fit r width height padding).scale = v.clampScale 1 := by
  rw [fitted_eq_elim, scale_fit_eq]
  cases fitScale r (room width padding) (room height padding) with
  | none => exact .inr ⟨rfl, rfl⟩
  | some s => exact .inl ⟨s, rfl, rfl⟩

variable {v r width height padding}

theorem scale_fit_le (h : v.minScale ≤ fitted r (room width padding) (room height padding)) :
    (v.fit r width height padding).scale ≤ fitted r (room width padding) (room height padding) := by
  rcases v.scale_fit_cases r width height padding with ⟨s, hs, hscale⟩ | ⟨htop, -⟩
  · rw [hs] at h ⊢
    rw [hscale, clampScale, Scalar.clamp_real, WithTop.coe_le_coe]
    exact max_le (min_le_left _ _) (WithTop.coe_le_coe.mp h)
  · rw [htop]
    exact le_top

theorem fitted_eq_scale_fit
    (hge : v.minScale ≤ fitted r (room width padding) (room height padding))
    (hle : fitted r (room width padding) (room height padding) ≤ v.maxScale) :
    fitted r (room width padding) (room height padding) = (v.fit r width height padding).scale := by
  rcases v.scale_fit_cases r width height padding with ⟨s, hs, hscale⟩ | ⟨htop, -⟩
  · rw [hs] at hge hle ⊢
    rw [hscale, clampScale_of_within (WithTop.coe_le_coe.mp hge) (WithTop.coe_le_coe.mp hle)]
  · rw [htop, top_le_iff] at hle
    cases hle

theorem scale_fit_of_lt (h : fitted r (room width padding) (room height padding) < v.minScale) :
    (v.fit r width height padding).scale = v.minScale := by
  rcases v.scale_fit_cases r width height padding with ⟨s, hs, hscale⟩ | ⟨htop, -⟩
  · rw [hs, WithTop.coe_lt_coe] at h
    rw [hscale, clampScale, Scalar.clamp_real]
    exact max_eq_right ((min_le_left _ _).trans h.le)
  · rw [htop] at h
    exact absurd h not_top_lt

end Scale

/-! ## The fit -/

section Fitted

variable {v : Viewport ℝ} {r : Rect ℝ} {width height padding : ℝ}

theorem withinBounds_fit_of_pos (hpos : 0 < v.minScale) (hle : v.minScale ≤ v.maxScale)
    (r : Rect ℝ) (width height padding : ℝ) : (v.fit r width height padding).WithinBounds := by
  obtain ⟨hge, hle'⟩ := v.clampScale_within hle
    ((fitScale r (room width padding) (room height padding)).getD 1)
  rw [← scale_fit_eq] at hge hle'
  exact ⟨rfl, rfl, hpos, hle, hge, hle'⟩

/-- A rectangle has room between the margins unless it would have to be shown smaller than the bounds
allow. -/
theorem extents_fit (hpos : 0 < v.minScale) (hle : v.minScale ≤ v.maxScale)
    (hmax : v.maxScale ≤ 2 ^ 52)
    (h : v.minScale ≤ fitted r (room width padding) (room height padding)) :
    r.width * (v.fit r width height padding).scale ≤ room width padding ∧
      r.height * (v.fit r width height padding).scale ≤ room height padding := by
  have hw := withinBounds_fit_of_pos hpos hle r width height padding
  have hscale := hw.scale_le_maxScale.trans hmax
  obtain ⟨hx, hy⟩ := le_min_iff.mp (scale_fit_le h)
  exact ⟨extent_mul_le (one_le_room width padding) hw.scale_pos.le hscale hx,
    extent_mul_le (one_le_room height padding) hw.scale_pos.le hscale hy⟩

/-- A rectangle fills an axis if the scale that this takes is within the bounds. -/
theorem extent_fills (hge : v.minScale ≤ fitted r (room width padding) (room height padding))
    (hle : fitted r (room width padding) (room height padding) ≤ v.maxScale) :
    r.width * (v.fit r width height padding).scale = room width padding ∨
      r.height * (v.fit r width height padding).scale = room height padding := by
  have hscale := fitted_eq_scale_fit hge hle
  rcases min_choice (filling (room width padding) r.width) (filling (room height padding) r.height)
    with h | h
  · exact .inl (extent_mul_of_filling (h.symm.trans hscale))
  · exact .inr (extent_mul_of_filling (h.symm.trans hscale))

/-- Whatever a viewport with bounds in order showed before, a fitted rectangle is shown in the middle of
the screen, at a scale within the bounds. If the scale that it asks for is not below them, it lies
between the margins, and if that is not above them either, it fills an axis. A rectangle whose extents
both count as none asks for `⊤`. -/
theorem fit_centers_and_fills (hpos : 0 < v.minScale) (hle : v.minScale ≤ v.maxScale)
    (hmax : v.maxScale ≤ 2 ^ 52) (r : Rect ℝ) (width height padding : ℝ) :
    let w := v.fit r width height padding
    let asked := fitted r (room width padding) (room height padding)
    w.toScreen r.center = ⟨width / 2, height / 2⟩ ∧
    v.minScale ≤ w.scale ∧ w.scale ≤ v.maxScale ∧
    (∀ p, (w.image r).contains (w.toScreen p) = r.contains p) ∧
    (v.minScale ≤ asked →
      (w.image r).width ≤ room width padding ∧ (w.image r).height ≤ room height padding ∧
      (asked ≤ v.maxScale →
        (w.image r).width = room width padding ∨ (w.image r).height = room height padding)) ∧
    ∀ u : Viewport ℝ, u.minScale = v.minScale → u.maxScale = v.maxScale →
      u.fit r width height padding = w := by
  intro w asked
  have hw : w.WithinBounds := withinBounds_fit_of_pos hpos hle r width height padding
  refine ⟨?_, hw.minScale_le_scale, hw.scale_le_maxScale, hw.contains_image r, ?_, ?_⟩
  · have hoffset : w.offset = anchored r.center ⟨width / 2, height / 2⟩ w.scale := rfl
    simp only [toScreen, hw.effectiveScale_eq, hoffset, anchored, add_sub_cancel]
  · intro hge
    rw [hw.width_image, hw.height_image]
    obtain ⟨hx, hy⟩ := extents_fit hpos hle hmax hge
    exact ⟨hx, hy, extent_fills hge⟩
  · rintro ⟨scale, offset, lo, hi⟩ rfl rfl
    rfl

/-- A straight line is shown as long as the screen is wide without its margins. -/
theorem fit_centers_and_fills_of_line :
    let v : Viewport ℝ := ⟨3, ⟨7, 7⟩, 1 / 2, 4⟩
    let w := v.fit ⟨0, 5, 100, 5⟩ 220 30 10
    w.toScreen ⟨50, 5⟩ = ⟨110, 15⟩ ∧ w.scale ≤ 4 ∧ (w.image ⟨0, 5, 100, 5⟩).width = 200 ∧
      (w.image ⟨0, 5, 100, 5⟩).height ≤ 10 := by
  intro v w
  have hcenter : Rect.center ⟨0, 5, 100, 5⟩ = (⟨50, 5⟩ : Point ℝ) := by
    norm_num [Rect.center]
  have hasked : fitted ⟨0, 5, 100, 5⟩ (room 220 10) (room 30 10) = (2 : ℝ) := by
    norm_num [fitted, filling, room, Rect.width, Rect.height, Scalar.epsilon]
  have hwidth : room 220 10 = 200 := by norm_num [room]
  have hheight : room 30 10 = 10 := by norm_num [room]
  obtain ⟨hmiddle, -, hle, -, hfits, -⟩ := fit_centers_and_fills (v := v) (by norm_num [v])
    (by norm_num [v]) (by norm_num [v]) ⟨0, 5, 100, 5⟩ 220 30 10
  rw [hasked, hwidth, hheight] at hfits
  obtain ⟨-, hy, hfills⟩ := hfits (WithTop.coe_le_coe.mpr (by norm_num [v]))
  rw [hcenter] at hmiddle
  refine ⟨by rw [hmiddle]; norm_num, hle, ?_, hy⟩
  rcases hfills (WithTop.coe_le_coe.mpr (by norm_num [v])) with hx | hy
  · exact hx
  · norm_num [image, toScreen, Rect.height] at hy

end Fitted

end Viewport
end InkCanvas
