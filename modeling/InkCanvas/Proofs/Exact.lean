import Mathlib
import InkCanvas.Config
import InkCanvas.Proofs.Viewport

/-! # Exact arithmetic

The real numbers are scalars, and every one of them is finite. What holds of the engine there is what it
computes when nothing is rounded: a viewport within its bounds is mapped with the scale it states, and
its two directions are inverse to each other. -/

namespace InkCanvas

noncomputable instance : Scalar ℝ where
  ofNat n := n
  sqrt := Real.sqrt
  isFinite _ := true
  decidableLT _ _ := inferInstance
  decidableLE _ _ := inferInstance

namespace Scalar

@[simp] theorem isFinite_real (x : ℝ) : isFinite x = true := rfl

@[simp] theorem ofNat_real (n : ℕ) : (ofNat n : ℝ) = n := rfl

@[simp] theorem sqrt_real (x : ℝ) : sqrt x = √x := rfl

@[simp] theorem half_real (x : ℝ) : half x = x / 2 := rfl

@[simp] theorem min_real (a b : ℝ) : Scalar.min a b = min a b := by
  rw [Scalar.min, beq_self_eq_true, min_comm, min_def_lt]
  rfl

@[simp] theorem max_real (a b : ℝ) : Scalar.max a b = max a b := by
  rw [Scalar.max, beq_self_eq_true, max_def_lt]
  rfl

@[simp] theorem magnitude_real (x : ℝ) : magnitude x = |x| := by
  rw [magnitude]
  split
  next h => exact (abs_of_neg h).symm
  next h => exact (abs_of_nonneg (not_lt.mp h)).symm

theorem epsilon_real_pos : (0 : ℝ) < epsilon := by
  norm_num [epsilon]

theorem clamp_real (x lo hi : ℝ) : clamp x lo hi = max (min x hi) lo := by
  rw [clamp, max_real, min_real]

end Scalar

instance : LawfulScalar ℝ where
  beq_self_of_isFinite _ := BEq.rfl
  lt_irrefl := lt_irrefl
  le_of_not_lt _ _ h := not_lt.mp h
  lt_of_not_le _ _ h := not_le.mp h
  isFinite_of_within _ _ _ _ := rfl
  isFinite_zero := rfl
  isFinite_of_add _ := ⟨rfl, rfl⟩
  isFinite_of_sub _ := ⟨rfl, rfl⟩
  isFinite_of_mul _ := ⟨rfl, rfl⟩
  isFinite_of_div _ := rfl

instance : LawfulUnit ℝ where
  isFinite_one := rfl
  zero_le_one := zero_le_one

theorem minScale_real : (minScale : ℝ) = 1 / 10 := by
  simp [minScale]

theorem maxScale_real : (maxScale : ℝ) = 10 := by
  simp [maxScale]

theorem Config.valid_standard_real : (standard : Config ℝ).Valid := by
  have hstrokes : (500 : UInt64) ≠ 0 := by decide
  have hhistory : (100 : UInt64) ≠ 0 := by decide
  constructor <;>
    norm_num [standard, Scalar.isPositive, minScale_real, maxScale_real, hstrokes, hhistory]

namespace Viewport

theorem withinBounds_initial : (initial : Viewport ℝ).WithinBounds := by
  refine ⟨rfl, rfl, ?_, ?_, ?_, ?_⟩ <;> norm_num [initial, minScale_real, maxScale_real]

variable {v : Viewport ℝ}

theorem clampScale_within (h : v.minScale ≤ v.maxScale) (s : ℝ) :
    v.minScale ≤ v.clampScale s ∧ v.clampScale s ≤ v.maxScale :=
  Scalar.clamp_within rfl rfl h s

theorem clampScale_of_within {s : ℝ} (hge : v.minScale ≤ s) (hle : s ≤ v.maxScale) :
    v.clampScale s = s := by
  rw [clampScale, Scalar.clamp_real, min_eq_left hle, max_eq_left hge]

namespace WithinBounds

theorem effectiveScale_eq (h : v.WithinBounds) : v.effectiveScale = v.scale :=
  clampScale_of_within h.minScale_le_scale h.scale_le_maxScale

theorem scale_pos (h : v.WithinBounds) : 0 < v.scale :=
  h.minScale_pos.trans_le h.minScale_le_scale

theorem toScreen_toCanvas (h : v.WithinBounds) (p : Point ℝ) : v.toScreen (v.toCanvas p) = p := by
  have hscale := h.scale_pos.ne'
  simp only [toScreen, toCanvas, h.effectiveScale_eq]
  rw [div_mul_cancel₀ _ hscale, div_mul_cancel₀ _ hscale, sub_add_cancel, sub_add_cancel]

theorem toCanvas_toScreen (h : v.WithinBounds) (p : Point ℝ) : v.toCanvas (v.toScreen p) = p := by
  have hscale := h.scale_pos.ne'
  simp only [toScreen, toCanvas, h.effectiveScale_eq]
  rw [add_sub_cancel_right, add_sub_cancel_right, mul_div_cancel_right₀ _ hscale,
    mul_div_cancel_right₀ _ hscale]

/-- The map to the screen takes every point where it is seen. -/
theorem transform_apply (h : v.WithinBounds) : v.transform.apply = v.toScreen := by
  funext p
  simp only [transform, Affine.comp, Affine.shift, Affine.scaling, Affine.apply, toScreen,
    h.effectiveScale_eq, Point.mk.injEq]
  constructor <;> ring

/-- The map to the canvas takes every point to what is seen there. -/
theorem inverse_apply (h : v.WithinBounds) : v.inverse.apply = v.toCanvas := by
  funext p
  have hoffset : -v.offset = ⟨-v.offset.x, -v.offset.y⟩ := rfl
  simp only [inverse, Affine.comp, Affine.shift, Affine.scaling, Affine.apply, toCanvas, hoffset,
    h.effectiveScale_eq, Point.mk.injEq]
  constructor <;> ring

end WithinBounds

end Viewport

end InkCanvas
