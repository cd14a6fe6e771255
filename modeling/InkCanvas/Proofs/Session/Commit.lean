import InkCanvas.Proofs.Session.Kept
import InkCanvas.Proofs.Session.Steered

/-! # How a call commits the stroke being drawn

Whatever the call, what it commits is the stroke being drawn, with a last sample if the gesture gives
one (`Session.beforeCommit`), and the stroke is then on top of all others
(`Session.perform_commits`). -/

namespace InkCanvas

/-- The newest of a list of items are last. -/
theorem getLast?_newest_append {β : Type} {cap : Nat} (h : 0 < cap) (items : List β) (x : β) :
    (newest cap (items ++ [x])).getLast? = some x := by
  have hlt : excess cap (items ++ [x]) < (items ++ [x]).length := by
    simp only [excess, List.length_append, List.length_singleton]
    omega
  rw [newest, List.getLast?_drop, if_neg (Nat.not_le.mpr hlt), List.getLast?_concat]

namespace Session

variable {α : Type} [Scalar α]

/-- The session after the last sample that comes with a command to commit. -/
def beforeObeying (s : Session α) : Command α → Session α
  | .finish (some last) => (s.extendStroke last).1
  | _ => s

/-- The session from which a call commits the stroke being drawn. -/
def beforeCommit (s : Session α) : Action α → Session α
  | .handle e => ((s.arbiter.handle e s.view s.settings.tool).2.map s.beforeObeying).getD s
  | _ => s

/-- The stroke got the next number and lies on top of all others. -/
structure Commits (s : Session α) (l : Live α) (t : Session α) : Prop where
  committed : t.committed = s.committed + 1
  last : t.strokes.getLast? = some ⟨s.committed + 1, l.stroke⟩
  view : t.view = s.view

variable {s : Session α}

/-- Another sample changes nothing but the stroke being drawn. -/
theorem exists_extendStroke_eq (s : Session α) (next : Sample α) :
    ∃ live revision, (s.extendStroke next).1 = { s with live, revision } := by
  cases hl : s.live with
  | none =>
    rw [extendStroke_of_none hl]
    exact ⟨s.live, s.revision, rfl⟩
  | some l =>
    cases h : l.extend next with
    | ok m =>
      rw [extendStroke_of_ok hl h]
      exact ⟨some m, s.revision + 1, rfl⟩
    | error e =>
      rw [extendStroke_of_error hl h]
      exact ⟨s.live, s.revision, rfl⟩

theorem extendStroke_committed (s : Session α) (next : Sample α) :
    (s.extendStroke next).1.committed = s.committed := by
  obtain ⟨live, revision, heq⟩ := s.exists_extendStroke_eq next
  rw [heq]

omit [Scalar α] in
theorem cancelStroke_committed (s : Session α) : s.cancelStroke.1.committed = s.committed := by
  cases hl : s.live with
  | none => rw [cancelStroke_of_none hl]
  | some l => rw [cancelStroke_of_some hl]; rfl

/-- Opening a stroke changes nothing on the canvas. -/
theorem exists_beginStroke_eq (s : Session α) (first : Sample α) : ∃ live revision,
    (s.beginStroke first).1 = { s.finishStroke.1 with live, revision } := by
  cases h : Live.start first s.settings with
  | ok l =>
    rw [beginStroke_of_ok h]
    exact ⟨some l, s.finishStroke.1.revision + 1, rfl⟩
  | error e =>
    rw [beginStroke_of_error h]
    exact ⟨s.finishStroke.1.live, s.finishStroke.1.revision, rfl⟩

section
variable (hroom : 0 < s.limits.items)
include hroom

theorem commits_settle (l : Live α) : Commits s l (s.settle l) := by
  refine ⟨rfl, ?_, rfl⟩
  rw [strokes, settle_timeline]
  exact getLast?_newest_append hroom s.strokes _

theorem finishStroke_commits (h : s.finishStroke.1.committed ≠ s.committed) :
    ∃ l, s.live = some l ∧ Commits s l s.finishStroke.1 := by
  cases hl : s.live with
  | none =>
    rw [finishStroke_of_none hl] at h
    exact absurd rfl h
  | some l =>
    rw [finishStroke_of_some hl]
    exact ⟨l, rfl, commits_settle hroom l⟩

theorem beginStroke_commits {first : Sample α} (h : (s.beginStroke first).1.committed ≠ s.committed) :
    ∃ l, s.live = some l ∧ Commits s l (s.beginStroke first).1 := by
  obtain ⟨live, revision, heq⟩ := s.exists_beginStroke_eq first
  rw [heq] at h ⊢
  obtain ⟨l, hl, hcommits⟩ := finishStroke_commits hroom h
  exact ⟨l, hl, hcommits.committed, hcommits.last, hcommits.view⟩

theorem obey_commits {command : Command α} (h : (s.obey command).1.committed ≠ s.committed) :
    ∃ l, (s.beforeObeying command).live = some l ∧ Commits s l (s.obey command).1 := by
  cases command with
  | begin first => exact beginStroke_commits hroom h
  | extend next => exact absurd (s.extendStroke_committed next) h
  | finish last =>
    cases last with
    | none => exact finishStroke_commits hroom h
    | some p =>
      obtain ⟨live, revision, heq⟩ := s.exists_extendStroke_eq p
      change (s.extendStroke p).1.finishStroke.1.committed ≠ s.committed at h
      change ∃ l, (s.extendStroke p).1.live = some l ∧
        Commits s l (s.extendStroke p).1.finishStroke.1
      rw [heq] at h ⊢
      obtain ⟨l, hl, hcommits⟩ := finishStroke_commits (s := { s with live, revision }) hroom h
      exact ⟨l, hl, hcommits.committed, hcommits.last, hcommits.view⟩
  | cancel => exact absurd s.cancelStroke_committed h
  | restart first =>
    obtain ⟨live, revision, heq⟩ := s.cancelStroke.1.exists_beginStroke_eq first
    change (s.cancelStroke.1.beginStroke first).1.committed ≠ s.committed at h
    rw [heq, finishStroke_of_none s.cancelStroke_live] at h
    exact absurd s.cancelStroke_committed h
  | erase p => exact absurd (s.eraseAt_inkless p).committed h
  | view v => exact absurd (s.view_inkless v).committed h

/-- A call that takes a number commits the stroke being drawn. -/
theorem perform_commits {a : Action α} (h : (s.perform a).1.committed ≠ s.committed) :
    ∃ l, (s.beforeCommit a).live = some l ∧ Commits s l (s.perform a).1 := by
  rcases a.event_or_interrupt_or_neither with ⟨e, rfl⟩ | rfl | ⟨hevent, hinterrupt⟩
  · rw [perform_handle_fst] at h ⊢
    rw [beforeCommit]
    cases hcommand : (s.arbiter.handle e s.view s.settings.tool).2 with
    | none =>
      rw [hcommand] at h
      exact absurd rfl h
    | some command =>
      rw [hcommand] at h
      obtain ⟨l, hl, hcommits⟩ := obey_commits hroom h
      exact ⟨l, hl, hcommits.committed, hcommits.last, hcommits.view⟩
  · rw [perform_interrupt_fst] at h ⊢
    obtain ⟨l, hl, hcommits⟩ := finishStroke_commits hroom h
    exact ⟨l, hl, hcommits.committed, hcommits.last, hcommits.view⟩
  · cases a with
    | beginStroke first => exact beginStroke_commits hroom h
    | finishStroke => exact finishStroke_commits hroom h
    | extendStroke next => exact absurd (s.extendStroke_committed next) h
    | cancelStroke => exact absurd s.cancelStroke_committed h
    | _ => exact absurd (s.perform_inkless rfl hevent hinterrupt).committed h

end

end Session
end InkCanvas
