import InkCanvas.Session.Basic
import InkCanvas.Proofs.Eraser
import Mathlib.Algebra.Group.Nat.Defs

/-! # Edits of a session

An *edit* is one change that can be seen: a stroke is opened, grows, is dropped or committed, the
list of strokes is replaced, or the canvas lies elsewhere. Each edit moves the revision by one
(`Edits.revision`).

An operation either refuses and leaves the session alone or makes one or two edits (`Answer`). The
one exception is a stroke that is refused while another is drawn (`beginStroke_of_error`): a command
that begins it is left out of `obey_answer`. -/

namespace InkCanvas
namespace Session

variable {α : Type} [Scalar α]

/-- The session after the stroke `l` is committed under the next number and nothing is drawn. -/
def settle (s : Session α) (l : Live α) : Session α :=
  { s with
      live := none
      committed := s.committed + 1
      cache := (s.cache.getOrBuild (s.committed + 1) l.stroke).2 }.commit
    (s.strokes ++ [Inked.mk (s.committed + 1) l.stroke])

theorem settle_timeline (s : Session α) (l : Live α) : (s.settle l).timeline =
    (s.timeline.commitCapped s.limits (s.strokes ++ [Inked.mk (s.committed + 1) l.stroke])).1 := rfl

theorem settle_live (s : Session α) (l : Live α) : (s.settle l).live = none := rfl

theorem settle_settings (s : Session α) (l : Live α) : (s.settle l).settings = s.settings := rfl

/-! ## Edits -/

/-- One change that can be seen. -/
inductive Edit : Session α → Session α → Prop where
  | shown (s : Session α) (view : Viewport α) : Edit s { s with view }.touch
  | opened {s : Session α} {first : Sample α} {l : Live α} (idle : s.live = none)
      (start : Live.start first s.settings = .ok l) : Edit s { s with live := some l }.touch
  | grown {s : Session α} {next : Sample α} {l m : Live α} (live : s.live = some l)
      (extend : l.extend next = .ok m) : Edit s { s with live := some m }.touch
  | dropped {s : Session α} {l : Live α} (live : s.live = some l) :
      Edit s { s with live := none }.touch
  | settled {s : Session α} {l : Live α} (live : s.live = some l) : Edit s (s.settle l)
  | erased {s : Session α} {p : Point α} {remaining : List (Inked α)}
      (hit : Eraser.erase s.strokes p s.config.eraserRadius = .ok (some remaining)) :
      Edit s (s.commit remaining)
  | cleared {s : Session α} (nonempty : s.strokes ≠ []) : Edit s (s.commit [])
  | undone {s : Session α} {timeline : Timeline (List (Inked α))}
      (step : s.timeline.undo? = some timeline) : Edit s { s with timeline }.touch
  | redone {s : Session α} {timeline : Timeline (List (Inked α))}
      (step : s.timeline.redo? = some timeline) : Edit s { s with timeline }.touch

/-- A number of edits in a row. -/
inductive Edits : Nat → Session α → Session α → Prop where
  | nil (s : Session α) : Edits 0 s s
  | cons {s t u : Session α} {n : Nat} (first : Edit s t) (rest : Edits n t u) : Edits (n + 1) s u

variable {s t u : Session α}

theorem Edit.config (h : Edit s t) : t.config = s.config := by cases h <;> rfl

theorem Edit.settings (h : Edit s t) : t.settings = s.settings := by cases h <;> rfl

theorem Edit.arbiter (h : Edit s t) : t.arbiter = s.arbiter := by cases h <;> rfl

theorem Edit.revision (h : Edit s t) : t.revision = s.revision + 1 := by cases h <;> rfl

theorem Edits.one (h : Edit s t) : Edits 1 s t := .cons h (.nil t)

theorem Edits.two (h : Edit s t) (h' : Edit t u) : Edits 2 s u := .cons h (.one h')

theorem Edits.arbiter {n : Nat} (h : Edits n s t) : t.arbiter = s.arbiter := by
  induction h with
  | nil => rfl
  | cons first _ ih => rw [ih, first.arbiter]

theorem Edits.revision {n : Nat} (h : Edits n s t) : t.revision = s.revision + .ofNat n := by
  induction h with
  | nil => simp
  | cons first _ ih =>
    rw [ih, first.revision, UInt64.ofNat_add, UInt64.add_assoc, UInt64.add_comm 1]
    rfl

/-- A revision that has moved fewer than `2⁶⁴` times and is back where it was has not moved. -/
theorem eq_zero_of_add_ofNat_eq {revision : UInt64} {n : Nat} (hn : n < 2 ^ 64)
    (h : revision + .ofNat n = revision) : n = 0 := by
  have hzero : UInt64.ofNat n = 0 := by simpa using h
  have hmod : n % 2 ^ 64 = 0 := congrArg UInt64.toNat hzero
  rwa [Nat.mod_eq_of_lt hn] at hmod

/-- What a call and its report may be: either it reports failure and the session is as it was, or
it reports success after one or two edits. -/
inductive Answer (s : Session α) : Session α × Bool → Prop where
  | no : Answer s (s, false)
  | yes {n : Nat} {t : Session α} (edits : Edits (n + 1) s t) (few : n < 2) : Answer s (t, true)

theorem Answer.one (h : Edit s t) : Answer s (t, true) := .yes (.one h) (by decide)

theorem Answer.edits {r : Session α × Bool} (h : Answer s r) : ∃ n ≤ 2, Edits n s r.1 := by
  cases h with
  | no => exact ⟨0, by decide, .nil s⟩
  | yes edits few => exact ⟨_, few, edits⟩

theorem Answer.arbiter {r : Session α × Bool} (h : Answer s r) : r.1.arbiter = s.arbiter := by
  obtain ⟨n, -, edits⟩ := h.edits
  exact edits.arbiter

theorem Answer.steered {r : Session α × Bool} (h : Answer s r) :
    Answer { s with arbiter := r.1.arbiter } r := by
  rw [h.arbiter]
  exact h

/-- A report of failure is honest. -/
theorem Answer.eq_of_no {r : Session α × Bool} (h : Answer s r) (hr : r.2 = false) : r.1 = s := by
  cases h with
  | no => rfl
  | yes => cases hr

/-- A report of success shows in the revision, also where it wraps around. -/
theorem Answer.revision_ne {r : Session α × Bool} (h : Answer s r) (hr : r.2 = true) :
    r.1.revision ≠ s.revision := by
  cases h with
  | no => cases hr
  | @yes n t edits few =>
    intro heq
    rw [edits.revision] at heq
    have hzero : n + 1 = 0 := eq_zero_of_add_ofNat_eq (by omega) heq
    omega

/-! ## What the calls do -/

theorem finishStroke_of_none (h : s.live = none) : s.finishStroke = (s, none) := by
  simp [finishStroke, h]

theorem finishStroke_of_some {l : Live α} (h : s.live = some l) :
    s.finishStroke = (s.settle l, some (s.committed + 1)) := by
  simp [finishStroke, settle, h, strokes]

theorem finishStroke_answer (s : Session α) :
    Answer s (s.finishStroke.map id Option.isSome) := by
  cases h : s.live with
  | none => rw [finishStroke_of_none h]; exact .no
  | some l => rw [finishStroke_of_some h]; exact .one (.settled h)

theorem finishStroke_live (s : Session α) : s.finishStroke.1.live = none := by
  cases h : s.live with
  | none => rw [finishStroke_of_none h, h]
  | some l => rw [finishStroke_of_some h, settle_live]

theorem finishStroke_settings (s : Session α) : s.finishStroke.1.settings = s.settings := by
  cases h : s.live with
  | none => rw [finishStroke_of_none h]
  | some l => rw [finishStroke_of_some h, settle_settings]

theorem beginStroke_of_ok {first : Sample α} {l : Live α}
    (h : Live.start first s.settings = .ok l) :
    s.beginStroke first = ({ s.finishStroke.1 with live := some l }.touch, true) := by
  simp [beginStroke, finishStroke_settings, h]

/-- A stroke that is refused still ends the one that was being drawn, and the report is one of
failure. -/
theorem beginStroke_of_error {first : Sample α} {e : InkError α}
    (h : Live.start first s.settings = .error e) :
    s.beginStroke first = (s.finishStroke.1, false) := by
  simp [beginStroke, finishStroke_settings, h]

theorem beginStroke_live (s : Session α) (first : Sample α) :
    (s.beginStroke first).1.live = (Live.start first s.settings).toOption := by
  cases h : Live.start first s.settings with
  | error e => rw [beginStroke_of_error h]; exact s.finishStroke_live
  | ok l => rw [beginStroke_of_ok h]; rfl

/-- A stroke is begun honestly if none is drawn or if it is not refused. -/
theorem beginStroke_answer {first : Sample α}
    (h : s.live = none ∨ ∃ l, Live.start first s.settings = .ok l) :
    Answer s (s.beginStroke first) := by
  cases hstart : Live.start first s.settings with
  | error e =>
    rcases h with hl | ⟨l, hl⟩
    · rw [beginStroke_of_error hstart, finishStroke_of_none hl]
      exact .no
    · rw [hstart] at hl
      cases hl
  | ok l =>
    rw [beginStroke_of_ok hstart]
    cases hl : s.live with
    | none =>
      rw [finishStroke_of_none hl]
      exact .one (.opened hl hstart)
    | some m =>
      rw [finishStroke_of_some hl]
      exact .yes (.two (.settled hl) (.opened rfl hstart)) (by decide)

theorem extendStroke_of_none (h : s.live = none) (next : Sample α) :
    s.extendStroke next = (s, false) := by
  simp [extendStroke, h]

theorem extendStroke_of_ok {next : Sample α} {l m : Live α} (hl : s.live = some l)
    (h : l.extend next = .ok m) :
    s.extendStroke next = ({ s with live := some m }.touch, true) := by
  simp [extendStroke, hl, h]

theorem extendStroke_of_error {next : Sample α} {l : Live α} {e : InkError α}
    (hl : s.live = some l) (h : l.extend next = .error e) :
    s.extendStroke next = (s, false) := by
  simp [extendStroke, hl, h]

theorem extendStroke_answer (s : Session α) (next : Sample α) :
    Answer s (s.extendStroke next) := by
  cases hl : s.live with
  | none => rw [extendStroke_of_none hl]; exact .no
  | some l =>
    cases h : l.extend next with
    | ok m => rw [extendStroke_of_ok hl h]; exact .one (.grown hl h)
    | error e => rw [extendStroke_of_error hl h]; exact .no

omit [Scalar α] in
theorem cancelStroke_of_none (h : s.live = none) : s.cancelStroke = (s, false) := by
  simp [cancelStroke, h]

omit [Scalar α] in
theorem cancelStroke_of_some {l : Live α} (h : s.live = some l) :
    s.cancelStroke = ({ s with live := none }.touch, true) := by
  simp [cancelStroke, h]

theorem cancelStroke_answer (s : Session α) : Answer s s.cancelStroke := by
  cases h : s.live with
  | none => rw [cancelStroke_of_none h]; exact .no
  | some l => rw [cancelStroke_of_some h]; exact .one (.dropped h)

omit [Scalar α] in
theorem cancelStroke_settings (s : Session α) : s.cancelStroke.1.settings = s.settings := by
  cases h : s.live with
  | none => rw [cancelStroke_of_none h]
  | some l => rw [cancelStroke_of_some h]; rfl

omit [Scalar α] in
theorem cancelStroke_live (s : Session α) : s.cancelStroke.1.live = none := by
  cases h : s.live with
  | none => rw [cancelStroke_of_none h, h]
  | some l => rw [cancelStroke_of_some h]; rfl

theorem undo_answer (s : Session α) : Answer s s.undo := by
  unfold undo
  split
  next h => exact .one (.undone h)
  next => exact .no

theorem redo_answer (s : Session α) : Answer s s.redo := by
  unfold redo
  split
  next h => exact .one (.redone h)
  next => exact .no

theorem clear_answer (s : Session α) : Answer s s.clear := by
  unfold clear
  split
  next => exact .no
  next h => exact .one (.cleared (by simpa using h))

theorem pan_answer (s : Session α) (delta : Point α) : Answer s (s.pan delta) := by
  unfold pan
  split
  next => exact .one (.shown s _)
  next => exact .no

theorem zoom_answer (s : Session α) (factor : α) (anchor : Point α) :
    Answer s (s.zoom factor anchor) := by
  unfold zoom
  split
  next => exact .one (.shown s _)
  all_goals exact .no

theorem eraseAt_answer (s : Session α) (p : Point α) :
    Answer s ((s.eraseAt p).map id fun removed => decide (0 < removed)) := by
  unfold eraseAt
  split
  next remaining h =>
    have hlt := Eraser.length_lt_of_erase h
    have hpos : 0 < s.strokes.length - remaining.length := by omega
    simp only [Prod.map, id, hpos, decide_true]
    exact .one (.erased h)
  all_goals exact .no

theorem finish_answer (s : Session α) (last : Option (Sample α)) :
    Answer s (s.obey (.finish last)) := by
  cases last with
  | none => exact s.finishStroke_answer
  | some p =>
    cases hl : s.live with
    | none =>
      simp only [obey, extendStroke_of_none hl, finishStroke_of_none hl]
      exact .no
    | some l =>
      cases hp : l.extend p with
      | error e =>
        simp only [obey, extendStroke_of_error hl hp, finishStroke_of_some hl]
        exact .one (.settled hl)
      | ok m =>
        simp only [obey, extendStroke_of_ok hl hp]
        rw [finishStroke_of_some (l := m) rfl]
        exact .yes (.two (.grown hl hp) (.settled rfl)) (by decide)

theorem finishStroke_finishStroke (s : Session α) :
    s.finishStroke.1.finishStroke = (s.finishStroke.1, none) :=
  finishStroke_of_none s.finishStroke_live

theorem restart_answer (s : Session α) (first : Sample α) :
    Answer s (s.obey (.restart first)) := by
  cases hl : s.live with
  | none =>
    simp only [obey, cancelStroke_of_none hl, Bool.or_false]
    exact beginStroke_answer (.inl hl)
  | some l =>
    simp only [obey, cancelStroke_of_some hl, Bool.or_true]
    generalize ht : Session.touch { s with live := none } = t
    have hdrop : Edit s t := ht ▸ .dropped hl
    have hidle : t.live = none := ht ▸ rfl
    cases hstart : Live.start first t.settings with
    | error e =>
      rw [beginStroke_of_error hstart, finishStroke_of_none hidle]
      exact .one hdrop
    | ok m =>
      rw [beginStroke_of_ok hstart, finishStroke_of_none hidle]
      exact .yes (.two hdrop (.opened hidle hstart)) (by decide)

/-- A command is answered honestly unless it begins a stroke that is refused while another is
drawn. -/
theorem obey_answer {command : Command α}
    (h : ∀ first, command = .begin first →
      s.live = none ∨ ∃ l, Live.start first s.settings = .ok l) :
    Answer s (s.obey command) := by
  cases command with
  | begin first => exact beginStroke_answer (h first rfl)
  | extend next => exact s.extendStroke_answer next
  | finish last => exact s.finish_answer last
  | cancel => exact s.cancelStroke_answer
  | restart first => exact s.restart_answer first
  | erase p => exact s.eraseAt_answer p
  | view v =>
    simp only [obey]
    split
    next => exact .no
    next => exact .one (.shown s v)

/-- Whatever a command does is at most two edits, honestly reported or not. -/
theorem obey?_edits (s : Session α) (command : Option (Command α)) :
    ∃ n ≤ 2, Edits n s (s.obey? command).1 := by
  cases command with
  | none => exact ⟨0, by decide, .nil s⟩
  | some command =>
    by_cases h : ∃ first e, command = .begin first ∧ Live.start first s.settings = .error e
    · obtain ⟨first, e, rfl, he⟩ := h
      have hrefused : s.obey? (some (.begin first)) = (s.finishStroke.1, false) :=
        beginStroke_of_error he
      rw [hrefused]
      exact s.finishStroke_answer.edits
    · refine (obey_answer fun first hf => ?_).edits
      cases hstart : Live.start first s.settings with
      | ok l => exact .inr ⟨l, rfl⟩
      | error e => exact absurd ⟨first, e, hf, hstart⟩ h

theorem obey?_arbiter (s : Session α) (command : Option (Command α)) :
    (s.obey? command).1.arbiter = s.arbiter := by
  obtain ⟨n, -, edits⟩ := s.obey?_edits command
  exact edits.arbiter

/-! ## Events -/

theorem handle_eq (s : Session α) (e : Event α) :
    s.handle e = Session.obey? { s with arbiter := (s.arbiter.handle e s.view s.settings.tool).1 }
      (s.arbiter.handle e s.view s.settings.tool).2 := rfl

theorem handle_arbiter (s : Session α) (e : Event α) :
    (s.handle e).1.arbiter = (s.arbiter.handle e s.view s.settings.tool).1 := by
  rw [handle_eq, obey?_arbiter]

/-- An interruption ends the stroke that is being drawn, whatever the gesture is. -/
theorem interrupt_eq (s : Session α) : s.interrupt =
    (finishStroke { s with arbiter := s.arbiter.interrupt.1 }).map id Option.isSome := by
  have hcommand : s.arbiter.interrupt.2 = some (.finish none) ∨ s.arbiter.interrupt.2 = none := by
    unfold Arbiter.interrupt
    split
    · exact .inl rfl
    · exact .inr rfl
  generalize ht : ({ s with arbiter := s.arbiter.interrupt.1 } : Session α) = t
  have hunfold : s.interrupt = ((t.obey? s.arbiter.interrupt.2).1.finishStroke.1,
      (t.obey? s.arbiter.interrupt.2).2 ||
        (t.obey? s.arbiter.interrupt.2).1.finishStroke.2.isSome) := by
    rw [← ht]; rfl
  rw [hunfold]
  rcases hcommand with h | h
  · rw [h]
    change (t.finishStroke.1.finishStroke.1,
      t.finishStroke.2.isSome || t.finishStroke.1.finishStroke.2.isSome) = _
    rw [finishStroke_finishStroke]
    simp [Prod.map]
  · rw [h]
    simp [obey?, Prod.map]

end Session
end InkCanvas
