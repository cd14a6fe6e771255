import InkCanvas.Script
import InkCanvas.Proofs.Capture
import InkCanvas.Proofs.Session.Reachable

/-! # What a report of failure means

A call that reports failure leaves the session alone, up to the gestures, and one that reports
success moves the revision (`Session.perform_report`). The exception is a stroke that cannot begin
while another is being drawn (`Session.CutsShort`): the other stroke is committed, and the report is
one of failure. -/

namespace InkCanvas

/-- The call reports whether it changed the canvas. -/
def Action.tells {α : Type} : Action α → Bool
  | .setTool _ | .setColor _ | .setWidth _ | .resetView | .takeNotices => false
  | _ => true

namespace Session

variable {α : Type} [Scalar α]

/-- The sample that a call opens a stroke with, if it opens one without dropping the last. -/
def opens? (s : Session α) : Action α → Option (Sample α)
  | .beginStroke first => some first
  | .handle e =>
    match (s.arbiter.handle e s.view s.settings.tool).2 with
    | some (.begin first) => some first
    | _ => none
  | _ => none

/-- The call is to open a stroke at a position that is not finite while another is being drawn. -/
def CutsShort (s : Session α) (a : Action α) : Prop :=
  s.live.isSome ∧ ∃ first, s.opens? a = some first ∧ first.pos.isFinite = false

variable {s : Session α}

theorem opens?_handle_iff {e : Event α} {first : Sample α} :
    s.opens? (.handle e) = some first ↔
      (s.arbiter.handle e s.view s.settings.tool).2 = some (.begin first) := by
  simp only [opens?]
  split
  next h => rw [h]; simp
  next h => exact ⟨nofun, fun hcommand => absurd hcommand (h first)⟩

section
variable (hwidth : Scalar.isPositive s.settings.style.width = true) {a : Action α}
include hwidth

theorem idle_or_start_of_opens? {first : Sample α} (hopens : s.opens? a = some first)
    (h : ¬s.CutsShort a) : s.live = none ∨ ∃ l, Live.start first s.settings = .ok l := by
  rw [Live.exists_start_eq_ok_iff hwidth]
  cases hlive : s.live with
  | none => exact .inl rfl
  | some l =>
    cases hfinite : first.pos.isFinite with
    | true => exact .inr rfl
    | false => exact absurd ⟨Option.isSome_of_eq_some hlive, first, hopens, hfinite⟩ h

/-- Unless it cuts a stroke short, a call that tells answers honestly, up to the gestures. -/
theorem perform_answer (htells : a.tells = true) (h : ¬s.CutsShort a) :
    Answer { s with arbiter := (s.perform a).1.arbiter }
      ((s.perform a).map id Report.isChange) := by
  cases a with
  | setTool | setColor | setWidth | resetView | takeNotices => cases htells
  | beginStroke first => exact (beginStroke_answer (idle_or_start_of_opens? hwidth rfl h)).steered
  | extendStroke next => exact (s.extendStroke_answer next).steered
  | finishStroke => exact s.finishStroke_answer.steered
  | cancelStroke => exact s.cancelStroke_answer.steered
  | eraseAt p => exact (s.eraseAt_answer p).steered
  | undo => exact s.undo_answer.steered
  | redo => exact s.redo_answer.steered
  | clear => exact s.clear_answer.steered
  | pan delta => exact (s.pan_answer delta).steered
  | zoom factor anchor => exact (s.zoom_answer factor anchor).steered
  | handle e =>
    change Answer { s with arbiter := (s.handle e).1.arbiter } (s.handle e)
    rw [handle_arbiter, handle_eq]
    cases hcommand : (s.arbiter.handle e s.view s.settings.tool).2 with
    | none => exact .no
    | some command =>
      refine obey_answer fun first hf => idle_or_start_of_opens? hwidth ?_ h
      rw [opens?_handle_iff, hcommand, hf]
  | interrupt =>
    change Answer { s with arbiter := s.interrupt.1.arbiter } s.interrupt
    have hanswer := finishStroke_answer { s with arbiter := s.arbiter.interrupt.1 }
    rw [← interrupt_eq] at hanswer
    rw [hanswer.arbiter]
    exact hanswer

/-- A call that cuts a stroke short commits it and reports failure. -/
theorem perform_of_cutsShort (h : s.CutsShort a) : ∃ l, s.live = some l ∧
    s.perform a =
      (settle { s with arbiter := (s.perform a).1.arbiter } l, .changed false) := by
  obtain ⟨hlive, first, hopens, hfinite⟩ := h
  obtain ⟨l, hl⟩ := Option.isSome_iff_exists.mp hlive
  have hrefused : ∃ e, Live.start first s.settings = .error e := by
    cases hstart : Live.start first s.settings with
    | error e => exact ⟨e, rfl⟩
    | ok m =>
      have hok := (Live.exists_start_eq_ok_iff hwidth).mp ⟨m, hstart⟩
      rw [hfinite] at hok
      cases hok
  obtain ⟨e, he⟩ := hrefused
  have hbegin (arbiter : Arbiter α) : beginStroke { s with arbiter } first =
      (settle { s with arbiter } l, false) := by
    generalize ht : ({ s with arbiter } : Session α) = t
    have hlt : t.live = some l := ht ▸ hl
    have het : Live.start first t.settings = .error e := ht ▸ he
    rw [beginStroke_of_error het, finishStroke_of_some hlt]
  refine ⟨l, hl, ?_⟩
  cases a with
  | beginStroke first' =>
    obtain rfl := Option.some.inj hopens
    simp only [perform, hbegin s.arbiter]
    rfl
  | handle e =>
    have hhandle : s.handle e =
        (settle { s with arbiter := (s.arbiter.handle e s.view s.settings.tool).1 } l, false) := by
      rw [handle_eq, opens?_handle_iff.mp hopens]
      exact hbegin _
    simp only [perform, hhandle]
    rfl
  | _ => cases hopens

end

/-- In every reachable session a report of success comes with another revision. A report of failure
comes with the same session, up to the gestures, exactly if the call cuts no stroke short; one that
does commits the stroke and reports failure. -/
theorem perform_report (hs : s.Reachable) {a : Action α} (htells : a.tells = true) :
    ((s.perform a).2.isChange = true → (s.perform a).1.revision ≠ s.revision) ∧
    ((s.perform a).2.isChange = false →
      ((s.perform a).1 = { s with arbiter := (s.perform a).1.arbiter } ↔ ¬s.CutsShort a)) ∧
    (s.CutsShort a → ∃ l, s.live = some l ∧ s.perform a =
      (settle { s with arbiter := (s.perform a).1.arbiter } l, .changed false)) := by
  have hwidth := hs.isPositive_width
  have hshort (h : s.CutsShort a) := perform_of_cutsShort hwidth h
  refine ⟨fun hreport => ?_, fun hreport => ⟨fun hsame h => ?_, fun h => ?_⟩, hshort⟩
  · have h : ¬s.CutsShort a := by
      intro h
      obtain ⟨l, -, heq⟩ := hshort h
      rw [heq] at hreport
      cases hreport
    exact (perform_answer hwidth htells h).revision_ne hreport
  · obtain ⟨l, -, heq⟩ := hshort h
    have hrevision : (s.perform a).1.revision = s.revision + 1 := by rw [heq]; rfl
    rw [hsame] at hrevision
    simp at hrevision
  · exact (perform_answer hwidth htells h).eq_of_no hreport

/-- A stroke is opened at the origin, and another where it is not finite: the first is committed,
and the report is one of failure. -/
theorem perform_report_of_undefined_position :
    let s := (build (Config.standard : Config Float)).run [.beginStroke ⟨⟨0, 0⟩, 0, none⟩]
    let a : Action Float := .beginStroke ⟨⟨0 / 0, 0⟩, 1, none⟩
    s.Reachable ∧ a.tells = true ∧ (s.perform a).2 = .changed false ∧ s.strokes.length = 0 ∧
      (s.perform a).1.strokes.length = 1 ∧
      (s.perform a).1 ≠ { s with arbiter := (s.perform a).1.arbiter } := by
  intro s a
  have hc : ofConfig Config.standard = .ok (build (Config.standard : Config Float)) :=
    ofConfig_eq_ok_iff.mpr ⟨Option.isNone_iff_eq_none.mp (by decide +kernel), rfl⟩
  have hs : s.Reachable := ⟨_, _, _, hc, rfl⟩
  have hshort : s.CutsShort a := ⟨by decide +kernel, _, rfl, by decide +kernel⟩
  obtain ⟨-, hsame, hcommits⟩ := perform_report hs (a := a) rfl
  obtain ⟨l, -, heq⟩ := hcommits hshort
  have hreport : (s.perform a).2 = .changed false := by rw [heq]
  refine ⟨hs, rfl, hreport, by decide +kernel, by decide +kernel, fun h => ?_⟩
  exact (hsame (by rw [hreport]; rfl)).mp h hshort

end Session
end InkCanvas
