import InkCanvas.Proofs.Capture
import InkCanvas.Proofs.Draft
import InkCanvas.Proofs.Scalar

/-! # Well-formed strokes

A stroke is well formed when it is opened, because its width and its first position are looked at then,
and every sample that it takes later is brought into the form that the others have. -/

namespace InkCanvas

variable {α : Type} [Scalar α]

/-- What holds of every stroke that can be made. -/
structure Stroke.WellFormed (s : Stroke α) : Prop where
  nonempty : s.samples ≠ []
  finite : ∀ x ∈ s.samples, x.pos.isFinite = true
  ordered : (s.samples.map Sample.time).IsChain (· ≤ ·)
  pressures : ∀ x ∈ s.samples, ∀ p, x.pressure = some p → 0 ≤ p ∧ p ≤ 1
  width : Scalar.isPositive s.style.width = true

theorem Stroke.isFinite_of_extend {s t : Stroke α} {next : Sample α} (h : s.extend next = .ok t) :
    next.pos.isFinite = true := by
  rw [← Sample.isOk_sanitized]
  cases hnext : next.sanitized with
  | ok u => rfl
  | error e =>
    rw [extend, hnext] at h
    cases h

omit [Scalar α] in
theorem Sample.le_time_notBefore (s : Sample α) (t : UInt64) : t ≤ (s.notBefore t).time := by
  change t ≤ if s.time ≤ t then t else s.time
  split
  next => exact UInt64.le_refl t
  next h => exact UInt64.le_of_lt (UInt64.not_le.mp h)

theorem Stroke.isPositive_of_start {first : Sample α} {style : Style α} {tool : Tool} {s : Stroke α}
    (h : start first style tool = .ok s) : Scalar.isPositive style.width = true := by
  cases hwidth : Scalar.isPositive style.width with
  | true => rfl
  | false =>
    rw [start, hwidth] at h
    cases h

section
variable [LawfulUnit α]

open LawfulScalar LawfulUnit

theorem Sample.unitPressure_within {p : α} (h : Scalar.isFinite p = true) :
    0 ≤ unitPressure p ∧ unitPressure p ≤ 1 := by
  have hzero : ((0 : α) == 0) = true := beq_self_of_isFinite isFinite_zero
  have hone : ((1 : α) == 1) = true := beq_self_of_isFinite isFinite_one
  have hp := beq_self_of_isFinite h
  unfold unitPressure
  split
  next => exact ⟨Scalar.le_refl_of_isFinite isFinite_zero, zero_le_one⟩
  next hlow =>
    split
    next => exact ⟨zero_le_one, Scalar.le_refl_of_isFinite isFinite_one⟩
    next hhigh => exact ⟨le_of_not_lt hp hzero hlow, le_of_not_lt hone hp hhigh⟩

theorem Sample.keptPressure_within {s : Sample α} {p : α} (h : s.keptPressure = some p) :
    0 ≤ p ∧ p ≤ 1 := by
  obtain ⟨q, hq, rfl⟩ := Option.map_eq_some_iff.mp h
  exact unitPressure_within (Option.filter_eq_some_iff.mp hq).2

namespace Stroke

variable {s t : Stroke α}

theorem wellFormed_of_start {first : Sample α} {style : Style α} {tool : Tool}
    (h : start first style tool = .ok s) : s.WellFormed := by
  have hwidth := isPositive_of_start h
  have hfirst : first.pos.isFinite = true := by
    rw [← isOk_start hwidth first tool, h]
    rfl
  obtain rfl := eq_of_start h
  constructor
  · exact List.cons_ne_nil _ _
  · intro x hx
    obtain rfl := List.mem_singleton.mp hx
    exact hfirst
  · exact .singleton _
  · intro x hx p hp
    obtain rfl := List.mem_singleton.mp hx
    exact Sample.keptPressure_within hp
  · exact hwidth

theorem WellFormed.extend {next : Sample α} (h : s.WellFormed) (hext : s.extend next = .ok t) :
    t.WellFormed := by
  have hnext := isFinite_of_extend hext
  obtain ⟨hsamples, hstyle, -⟩ := samples_of_extend hext
  constructor
  · simp [hsamples]
  · rw [hsamples, List.forall_mem_append, List.forall_mem_singleton]
    exact ⟨h.finite, hnext⟩
  · rw [hsamples, List.map_append, List.isChain_append]
    refine ⟨h.ordered, .singleton _, ?_⟩
    -- The time of the new sample is raised to that of the last one.
    intro time htime later hlater
    rw [List.getLast?_map, s.getLast?_samples] at htime
    obtain rfl := Option.some.inj htime
    obtain rfl := Option.some.inj hlater
    exact next.le_time_notBefore s.last.time
  · rw [hsamples, List.forall_mem_append, List.forall_mem_singleton]
    exact ⟨h.pressures, fun p hp => Sample.keptPressure_within hp⟩
  · rw [hstyle]
    exact h.width

end Stroke
end

end InkCanvas
