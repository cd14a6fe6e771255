import InkCanvas.Proofs.Session.Reachable

/-! # The arbiter and the viewport apart

What works on the ink looks neither at the arbiter nor at the viewport, and only ever adds to the
revision. So it does the same to sessions that differ in these alone (`Session.recast`). Nothing but
the handling of events looks at the arbiter (`Session.perform_steered`). -/

namespace InkCanvas

/-- A call passes on an event, or interrupts, or is about neither. -/
theorem Action.event_or_interrupt_or_neither {α : Type} (a : Action α) :
    (∃ e, a = .handle e) ∨ a = .interrupt ∨ (∀ e, a ≠ .handle e) ∧ a ≠ .interrupt := by
  by_cases hevent : ∃ e, a = .handle e
  · exact .inl hevent
  · by_cases hinterrupt : a = .interrupt
    · exact .inr (.inl hinterrupt)
    · exact .inr (.inr ⟨fun e he => hevent ⟨e, he⟩, hinterrupt⟩)

/-- The call is to move or to scale the canvas. -/
def Action.navigates {α : Type} : Action α → Bool
  | .pan _ | .zoom .. | .resetView => true
  | _ => false

namespace Session

variable {α : Type} [Scalar α]

/-- The session with its arbiter and its viewport replaced and its revision moved on. -/
def recast (s : Session α) (arbiter : Arbiter α → Arbiter α) (view : Viewport α → Viewport α)
    (moves : UInt64) : Session α :=
  { s with arbiter := arbiter s.arbiter, view := view s.view, revision := s.revision + moves }

/-! ## Ink -/

section Ink
variable (s : Session α) (arbiter : Arbiter α → Arbiter α) (view : Viewport α → Viewport α)
  (moves : UInt64)

omit [Scalar α] in
theorem touch_recast :
    (s.recast arbiter view moves).touch = s.touch.recast arbiter view moves := by
  have hrevision : s.revision + moves + 1 = s.revision + 1 + moves := by
    rw [UInt64.add_assoc, UInt64.add_comm moves, ← UInt64.add_assoc]
  simp only [touch, recast, hrevision]

omit [Scalar α] in
theorem commit_recast (strokes : List (Inked α)) : (s.recast arbiter view moves).commit strokes =
    (s.commit strokes).recast arbiter view moves := by
  simp only [commit, ← touch_recast]
  rfl

theorem finishStroke_recast : (s.recast arbiter view moves).finishStroke =
    s.finishStroke.map (·.recast arbiter view moves) id := by
  cases hl : s.live with
  | none =>
    rw [finishStroke_of_none hl]
    exact finishStroke_of_none hl
  | some l =>
    have hsettle : (s.recast arbiter view moves).settle l =
        (s.settle l).recast arbiter view moves := by
      simp only [settle, ← commit_recast]
      rfl
    rw [finishStroke_of_some hl, finishStroke_of_some (s := s.recast arbiter view moves) hl, hsettle]
    rfl

theorem beginStroke_recast (first : Sample α) : (s.recast arbiter view moves).beginStroke first =
    (s.beginStroke first).map (·.recast arbiter view moves) id := by
  cases h : Live.start first s.settings with
  | error e =>
    rw [beginStroke_of_error h, beginStroke_of_error (s := s.recast arbiter view moves) h,
      finishStroke_recast]
    rfl
  | ok l =>
    rw [beginStroke_of_ok h, beginStroke_of_ok (s := s.recast arbiter view moves) h,
      finishStroke_recast]
    exact congrArg (·, true)
      (touch_recast { s.finishStroke.1 with live := some l } arbiter view moves)

theorem extendStroke_recast (next : Sample α) : (s.recast arbiter view moves).extendStroke next =
    (s.extendStroke next).map (·.recast arbiter view moves) id := by
  cases hl : s.live with
  | none =>
    rw [extendStroke_of_none hl]
    exact extendStroke_of_none (s := s.recast arbiter view moves) hl next
  | some l =>
    cases h : l.extend next with
    | error e =>
      rw [extendStroke_of_error hl h]
      exact extendStroke_of_error hl h
    | ok m =>
      rw [extendStroke_of_ok hl h, extendStroke_of_ok (s := s.recast arbiter view moves) hl h]
      exact congrArg (·, true) (touch_recast { s with live := some m } arbiter view moves)

omit [Scalar α] in
theorem cancelStroke_recast : (s.recast arbiter view moves).cancelStroke =
    s.cancelStroke.map (·.recast arbiter view moves) id := by
  cases hl : s.live with
  | none =>
    rw [cancelStroke_of_none hl]
    exact cancelStroke_of_none hl
  | some l =>
    rw [cancelStroke_of_some hl, cancelStroke_of_some (s := s.recast arbiter view moves) hl]
    exact congrArg (·, true) (touch_recast { s with live := none } arbiter view moves)

theorem eraseAt_recast (p : Point α) : (s.recast arbiter view moves).eraseAt p =
    (s.eraseAt p).map (·.recast arbiter view moves) id := by
  simp only [eraseAt, strokes, recast]
  split
  next => exact congrArg (·, _) (commit_recast s arbiter view moves _)
  all_goals rfl

/-- A call that is about the ink, or selects something, or asks for the notices looks neither at the
arbiter nor at the viewport. -/
theorem perform_recast {a : Action α} (hview : a.navigates = false) (hevent : ∀ e, a ≠ .handle e)
    (hinterrupt : a ≠ .interrupt) : (s.recast arbiter view moves).perform a =
      (s.perform a).map (·.recast arbiter view moves) id := by
  have htouch (timeline : Timeline (List (Inked α))) :
      touch { s.recast arbiter view moves with timeline } =
        (touch { s with timeline }).recast arbiter view moves :=
    touch_recast { s with timeline } arbiter view moves
  cases a with
  | handle e => exact absurd rfl (hevent e)
  | interrupt => exact absurd rfl hinterrupt
  | pan | zoom | resetView => cases hview
  | beginStroke first => simp only [perform, beginStroke_recast]; rfl
  | extendStroke next => simp only [perform, extendStroke_recast]; rfl
  | finishStroke => simp only [perform, finishStroke_recast]; rfl
  | cancelStroke => simp only [perform, cancelStroke_recast]; rfl
  | eraseAt p => simp only [perform, eraseAt_recast]; rfl
  | setTool | setColor | takeNotices => rfl
  | undo =>
    have htimeline : (s.recast arbiter view moves).timeline.undo? = s.timeline.undo? := rfl
    simp only [perform, undo, htimeline, htouch]
    split <;> rfl
  | redo =>
    have htimeline : (s.recast arbiter view moves).timeline.redo? = s.timeline.redo? := rfl
    simp only [perform, redo, htimeline, htouch]
    split <;> rfl
  | clear =>
    have hstrokes : (s.recast arbiter view moves).strokes = s.strokes := rfl
    simp only [perform, clear, hstrokes, commit_recast]
    split <;> rfl
  | setWidth width =>
    simp only [perform, setWidth]
    split <;> rfl

end Ink

section
variable (s : Session α) (arbiter : Arbiter α)

omit [Scalar α] in
theorem recast_arbiter : s.recast (fun _ => arbiter) id 0 = { s with arbiter } := by
  simp only [recast, id, UInt64.add_zero]

theorem finishStroke_steered :
    finishStroke { s with arbiter } = s.finishStroke.map (fun t => { t with arbiter }) id := by
  simpa only [recast_arbiter] using s.finishStroke_recast (fun _ => arbiter) id 0

theorem beginStroke_steered (first : Sample α) : beginStroke { s with arbiter } first =
    (s.beginStroke first).map (fun t => { t with arbiter }) id := by
  simpa only [recast_arbiter] using s.beginStroke_recast (fun _ => arbiter) id 0 first

theorem extendStroke_steered (next : Sample α) : extendStroke { s with arbiter } next =
    (s.extendStroke next).map (fun t => { t with arbiter }) id := by
  simpa only [recast_arbiter] using s.extendStroke_recast (fun _ => arbiter) id 0 next

omit [Scalar α] in
theorem cancelStroke_steered :
    cancelStroke { s with arbiter } = s.cancelStroke.map (fun t => { t with arbiter }) id := by
  simpa only [recast_arbiter] using s.cancelStroke_recast (fun _ => arbiter) id 0

theorem eraseAt_steered (p : Point α) :
    eraseAt { s with arbiter } p = (s.eraseAt p).map (fun t => { t with arbiter }) id := by
  simpa only [recast_arbiter] using s.eraseAt_recast (fun _ => arbiter) id 0 p

theorem obey_steered (command : Command α) : obey { s with arbiter } command =
    (s.obey command).map (fun t => { t with arbiter }) id := by
  cases command with
  | begin first => exact s.beginStroke_steered arbiter first
  | extend next => exact s.extendStroke_steered arbiter next
  | finish last =>
    cases last with
    | none => simp only [obey, finishStroke_steered]; rfl
    | some p => simp only [obey, extendStroke_steered, Prod.map, finishStroke_steered]; rfl
  | cancel => exact s.cancelStroke_steered arbiter
  | restart first => simp only [obey, cancelStroke_steered, Prod.map, beginStroke_steered]; rfl
  | erase p => simp only [obey, eraseAt_steered]; rfl
  | view v =>
    simp only [obey]
    split <;> rfl

theorem obey?_steered (command : Option (Command α)) :
    (obey? { s with arbiter } command).1 = { (s.obey? command).1 with arbiter } := by
  cases command with
  | none => rfl
  | some command => exact congrArg Prod.fst (s.obey_steered arbiter command)

/-- A call that is neither an event nor an interruption does not look at the arbiter. -/
theorem perform_steered {a : Action α} (hevent : ∀ e, a ≠ .handle e) (hinterrupt : a ≠ .interrupt) :
    perform { s with arbiter } a = (s.perform a).map (fun t => { t with arbiter }) id := by
  cases hview : a.navigates with
  | false =>
    simpa only [recast_arbiter] using
      s.perform_recast (fun _ => arbiter) id 0 hview hevent hinterrupt
  | true =>
    cases a with
    | resetView => rfl
    | pan delta =>
      simp only [perform, pan]
      split <;> rfl
    | zoom factor anchor =>
      simp only [perform, zoom]
      split <;> rfl
    | _ => cases hview

end

theorem perform_arbiter (s : Session α) {a : Action α} (hevent : ∀ e, a ≠ .handle e)
    (hinterrupt : a ≠ .interrupt) : (s.perform a).1.arbiter = s.arbiter := by
  have h := s.perform_steered s.arbiter hevent hinterrupt
  rw [show ({ s with arbiter := s.arbiter } : Session α) = s from rfl] at h
  rw [h]
  rfl

theorem perform_handle_fst (s : Session α) (e : Event α) : (s.perform (.handle e)).1 =
    { (s.obey? (s.arbiter.handle e s.view s.settings.tool).2).1 with
      arbiter := (s.arbiter.handle e s.view s.settings.tool).1 } := by
  change (s.handle e).1 = _
  rw [handle_eq, obey?_steered]

theorem perform_handle_arbiter (s : Session α) (e : Event α) :
    (s.perform (.handle e)).1.arbiter = (s.arbiter.handle e s.view s.settings.tool).1 := by
  rw [perform_handle_fst]

/-- An event that the arbiter ignores is reported as no change. -/
theorem perform_handle_of_ignored {s : Session α} {e : Event α}
    (h : s.arbiter.handle e s.view s.settings.tool = (s.arbiter, none)) :
    s.perform (.handle e) = (s, .changed false) := by
  rw [perform, handle_eq, h]
  rfl

theorem perform_interrupt (s : Session α) : s.perform .interrupt =
    ({ s.finishStroke.1 with arbiter := s.arbiter.interrupt.1 },
      .changed s.finishStroke.2.isSome) := by
  rw [perform, interrupt_eq, finishStroke_steered]
  rfl

theorem perform_interrupt_fst (s : Session α) : (s.perform .interrupt).1 =
    { s.finishStroke.1 with arbiter := s.arbiter.interrupt.1 } :=
  congrArg Prod.fst s.perform_interrupt

/-- What events and interruptions keep of an arbiter, every call does. -/
theorem perform_arbiter_keeps (s : Session α) {P : Arbiter α → Prop}
    (hhandle : ∀ b e view tool, P b → P (b.handle e view tool).1)
    (hinterrupt : ∀ b, P b → P b.interrupt.1) (h : P s.arbiter) (a : Action α) :
    P (s.perform a).1.arbiter := by
  rcases a.event_or_interrupt_or_neither with ⟨e, rfl⟩ | rfl | ⟨hevent, hstop⟩
  · rw [perform_handle_fst]
    exact hhandle s.arbiter e s.view s.settings.tool h
  · rw [perform_interrupt_fst]
    exact hinterrupt s.arbiter h
  · rw [s.perform_arbiter hevent hstop]
    exact h

end Session
end InkCanvas
