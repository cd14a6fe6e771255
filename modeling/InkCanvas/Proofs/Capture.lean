import InkCanvas.Path.Trail

/-! # When ink is accepted

A sample is refused only for its position, and a stroke is refused only for its first sample as
long as its width is finite and positive. -/

namespace InkCanvas

variable {α : Type} [Scalar α]

theorem Point.isOk_requireFinite (p : Point α) : p.requireFinite.isOk = p.isFinite := by
  unfold requireFinite
  cases p.isFinite <;> rfl

theorem Sample.isOk_sanitized (s : Sample α) : s.sanitized.isOk = s.pos.isFinite := by
  rw [← Point.isOk_requireFinite]
  unfold sanitized
  cases s.pos.requireFinite <;> rfl

theorem Stroke.isOk_start {style : Style α} (h : Scalar.isPositive style.width = true)
    (first : Sample α) (tool : Tool) : (Stroke.start first style tool).isOk = first.pos.isFinite := by
  rw [← Sample.isOk_sanitized]
  unfold start
  rw [h]
  cases first.sanitized <;> rfl

theorem Live.isOk_start {settings : Settings α}
    (h : Scalar.isPositive settings.style.width = true) (first : Sample α) :
    (Live.start first settings).isOk = first.pos.isFinite := by
  rw [← Stroke.isOk_start h first settings.tool]
  unfold start
  cases Stroke.start first settings.style settings.tool <;> rfl

theorem Live.exists_start_eq_ok_iff {settings : Settings α}
    (h : Scalar.isPositive settings.style.width = true) {first : Sample α} :
    (∃ l, Live.start first settings = .ok l) ↔ first.pos.isFinite = true := by
  rw [← Live.isOk_start h first]
  cases Live.start first settings <;> simp [Except.isOk, Except.toBool]

/-- A sample at a finite position is taken. -/
theorem Live.exists_extend_eq_ok (l : Live α) {next : Sample α} (h : next.pos.isFinite = true) :
    ∃ m, l.extend next = .ok m := by
  have hok : next.sanitized.isOk = true := (Sample.isOk_sanitized next).trans h
  cases hnext : next.sanitized with
  | error e =>
    rw [hnext] at hok
    cases hok
  | ok t =>
    unfold extend Stroke.extend
    rw [hnext]
    exact ⟨_, rfl⟩

end InkCanvas
