import InkCanvas.Proofs.Gesture.Palm

/-! # A contact that draws

From the event that opens a stroke to the one that releases its contact, the arbiter follows the contact
and gives one command for each of its moves that goes far enough from the last sample
(`Arbiter.Draws.handle_move`); every other event that may happen meanwhile gives none
(`Arbiter.Draws.handle_other`). -/

namespace InkCanvas

variable {α : Type}

/-- The sample that a command opens a stroke with. -/
def Command.opened? : Command α → Option (Sample α)
  | .begin first | .restart first => some first
  | _ => none

namespace Arbiter

/-- The contact draws, and its last sample was at `kept`. -/
structure Draws (a : Arbiter α) (c : Contact α) (kept : Point α) (moved : Bool) : Prop where
  gesture : a.gesture = .inking c.id .pen kept moved
  contact : a.contacts.get? c.id = some c

variable [Scalar α] {a : Arbiter α} {c : Contact α} {e : Event α} {view : Viewport α} {tool : Tool}
  {kept : Point α} {moved : Bool} {first : Sample α}

/-! ## The event that opens a stroke -/

theorem opened_startInking (h : (a.startInking c e view tool).2.opened? = some first) :
    tool = .pen ∧ first = sampleAt c.pos e view ∧
      (a.startInking c e view tool).1 = { a with gesture := .inking c.id .pen c.pos false } := by
  cases tool with
  | pen => exact ⟨rfl, (Option.some.inj h).symm, rfl⟩
  | eraser => cases h

theorem opened_onPen (h : (a.onPen c e view tool).2.bind Command.opened? = some first) :
    tool = .pen ∧ first = sampleAt c.pos e view ∧
      (a.onPen c e view tool).1 = { a with gesture := .inking c.id .pen c.pos false } := by
  unfold onPen at h ⊢
  split at h
  next => exact opened_startInking h
  next => exact opened_startInking h
  next => exact opened_startInking h
  next drawing held kept moved hg =>
    split at h
    next hfinger =>
      rw [if_pos hfinger]
      cases tool with
      | eraser => cases h
      | pen => cases held <;> cases moved <;> exact ⟨rfl, (Option.some.inj h).symm, rfl⟩
    next => cases h

theorem opened_onFinger (h : (a.onFinger c e view tool).2.bind Command.opened? = some first) :
    tool = .pen ∧ first = sampleAt c.pos e view ∧
      (a.onFinger c e view tool).1 = { a with gesture := .inking c.id .pen c.pos false } := by
  unfold onFinger at h ⊢
  split at h
  next =>
    split at h
    next => cases h
    next =>
      split at h
      next => cases h
      next => exact opened_startInking h
  next => cases h
  next drawing held kept moved hg =>
    split at h
    next => cases held <;> cases h
    next => cases h
  next => cases h

theorem opened_onMove : (a.onMove c e view).2.bind Command.opened? = none := by
  unfold onMove
  split
  next => rfl
  next => split <;> rfl
  next => split <;> rfl
  next finger origin base hg =>
    split
    next => cases base.pan (c.pos - origin) <;> rfl
    next => rfl
  next first second mid distance base hg =>
    split
    next =>
      cases a.contacts.get? first with
      | none => rfl
      | some p =>
        cases a.contacts.get? second with
        | none => rfl
        | some q =>
          change (Option.map Command.view _).bind Command.opened? = none
          cases (base.pinched mid (p.pos.midpoint q.pos) _).toOption <;> rfl
    next => rfl

theorem opened_onRelease : (a.onRelease c e view).2.bind Command.opened? = none := by
  unfold onRelease
  split
  next => rfl
  next tool _ _ _ =>
    split
    next => cases tool <;> rfl
    next => rfl
  next => rfl
  next =>
    split
    next =>
      dsimp only
      split <;> rfl
    next => rfl

/-- An event that opens a stroke presses the contact that draws it, while the pen is selected. -/
theorem draws_of_opened (h : (a.handle e view tool).2.bind Command.opened? = some first) :
    tool = .pen ∧ first = sampleAt e.pos e view ∧ (a.handle e view tool).1.Draws (.ofEvent e) e.pos false := by
  have hr := a.handled e view tool
  generalize a.handle e view tool = r at hr h
  cases hr with
  | ignored => cases h
  | pen _ _ press =>
    obtain ⟨htool, hfirst, hafter⟩ := opened_onPen h
    rw [hafter]
    exact ⟨htool, hfirst, rfl, Contacts.get?_of_press_self press⟩
  | finger _ _ press =>
    obtain ⟨htool, hfirst, hafter⟩ := opened_onFinger h
    rw [hafter]
    exact ⟨htool, hfirst, rfl, Contacts.get?_of_press_self press⟩
  | moved => rw [opened_onMove] at h; cases h
  | released => rw [opened_onRelease] at h; cases h

/-! ## While the contact draws -/

namespace Draws

/-- A move gives a sample where the contact is then, unless that is near the last sample. -/
theorem handle_move (h : a.Draws c kept moved) (hcontact : e.contact = c.id)
    (hphase : e.phase = .move) (view : Viewport α) (tool : Tool) :
    if (c.follow e).pos.distance kept < a.rules.minSampleDistance then
      (a.handle e view tool).2 = none ∧ (a.handle e view tool).1.Draws (c.follow e) kept moved
    else
      (a.handle e view tool).2 = some (.extend (sampleAt (c.follow e).pos e view)) ∧
        (a.handle e view tool).1.Draws (c.follow e) (c.follow e).pos true := by
  obtain ⟨contacts, hupdate⟩ := Contacts.exists_update_eq (hcontact ▸ h.contact)
  have hget : contacts.get? (c.follow e).id = some (c.follow e) := by
    change contacts.get? c.id = _
    rw [Contacts.get?_of_update hupdate, h.contact, Option.map_some, if_pos (by simp [hcontact])]
  have hg : a.gesture = .inking (c.follow e).id .pen kept moved := h.gesture
  rw [handle_of_update hphase hupdate]
  by_cases hnear : (c.follow e).pos.distance kept < a.rules.minSampleDistance
  · have hmove : onMove { a with contacts } (c.follow e) e view = ({ a with contacts }, none) := by
      simp [onMove, hg, hnear]
    rw [if_pos hnear, hmove]
    exact ⟨rfl, hg, hget⟩
  · have hmove : onMove { a with contacts } (c.follow e) e view =
        (⟨a.rules, contacts, .inking (c.follow e).id .pen (c.follow e).pos true⟩,
          some (.extend (sampleAt (c.follow e).pos e view))) := by
      simp [onMove, hg, hnear]
    rw [if_neg hnear, hmove]
    exact ⟨rfl, rfl, hget⟩

/-- A press of the contact, which is down already, is ignored. -/
theorem handle_start (h : a.Draws c kept moved) (hcontact : e.contact = c.id)
    (hphase : e.phase = .start) (view : Viewport α) (tool : Tool) :
    a.handle e view tool = (a, none) := by
  have hpress : a.contacts.press e = none := by
    simp [Contacts.press, hcontact, h.contact]
  rw [handle, hphase, hpress]

omit [Scalar α] in
theorem isFinger_eq_false (h : a.Draws c kept moved) (hpen : c.device = .stylus) :
    a.contacts.isFinger c.id = false := by
  simp [Contacts.isFinger, h.contact, hpen]

/-- An event of another contact gives no command, unless it is a press while a finger draws. -/
theorem handle_other (h : a.Draws c kept moved) (hcontact : e.contact ≠ c.id)
    (hpen : e.phase = .start → c.device = .stylus) (view : Viewport α) (tool : Tool) :
    (a.handle e view tool).2 = none ∧ (a.handle e view tool).1.Draws c kept moved := by
  have hquiet {contacts : Contacts α} {r : Arbiter α × Option (Command α)}
      (hget : contacts.get? c.id = a.contacts.get? c.id)
      (hr : Draws { a with contacts } c kept moved → r = ({ a with contacts }, none)) :
      r.2 = none ∧ r.1.Draws c kept moved := by
    have hdraws : Draws { a with contacts } c kept moved := ⟨h.gesture, hget.trans h.contact⟩
    rw [hr hdraws]
    exact ⟨rfl, hdraws⟩
  have hr := a.handled e view tool
  generalize a.handle e view tool = r at hr
  cases hr with
  | ignored => exact ⟨rfl, h⟩
  | pen phase _ press =>
    refine hquiet (Contacts.get?_of_press_of_ne press hcontact) fun hdraws => ?_
    simp [onPen, h.gesture, hdraws.isFinger_eq_false (hpen phase)]
  | finger phase _ press =>
    refine hquiet (Contacts.get?_of_press_of_ne press hcontact) fun hdraws => ?_
    simp [onFinger, h.gesture, hdraws.isFinger_eq_false (hpen phase)]
  | @moved d _ _ update =>
    refine hquiet (Contacts.get?_of_update_of_ne update hcontact) fun _ => ?_
    have hne : c.id ≠ d.id := by rw [Contacts.id_of_update update]; exact hcontact.symm
    simp [onMove, h.gesture, hne]
  | @released d _ _ release =>
    refine hquiet (Contacts.get?_of_release_of_ne release hcontact) fun _ => ?_
    have hne : c.id ≠ d.id := by rw [Contacts.id_of_release release]; exact hcontact.symm
    simp [onRelease, h.gesture, hne]

/-- When the contact is released its stroke is finished, with a last sample unless it was a tap or ended
at the last sample. -/
theorem handle_release (h : a.Draws c kept moved) (hcontact : e.contact = c.id)
    (hphase : e.phase.isRelease = true) (view : Viewport α) (tool : Tool) :
    (a.handle e view tool).2 = some (.finish
      (if !(!moved && decide ((c.follow e).duration ≤ a.rules.tapMaxDuration)) &&
        (c.follow e).pos != kept then some (sampleAt (c.follow e).pos e view) else none)) := by
  obtain ⟨contacts, hrelease⟩ := Contacts.exists_release_eq (hcontact ▸ h.contact)
  have hg : a.gesture = .inking (c.follow e).id .pen kept moved := h.gesture
  rw [handle_of_release hphase hrelease]
  simp only [onRelease, hg, if_true]

end Draws

end Arbiter
end InkCanvas
