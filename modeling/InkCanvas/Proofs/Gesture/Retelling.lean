import InkCanvas.Proofs.Gesture.Bracket
import InkCanvas.Proofs.Retelling

/-! # What an arbiter takes no notice of

What a contact is was settled when it was pressed: the device that its later events name is not read, and
taking it away is the same as lifting it (`Arbiter.handle_of_alike`). An event that does not fit the contacts
that are down is stray (`Contacts.isStray`), and changes nothing (`Arbiter.handle_of_stray`). -/

namespace InkCanvas

variable {α : Type}

/-- The second event tells an arbiter the same as the first. Only an event that is no press may name
another device, and only a release may be another kind of release. -/
structure Event.Alike (e e' : Event α) : Prop where
  contact : e'.contact = e.contact
  device : e.phase = .start → e'.device = e.device
  phase : e'.phase = e.phase ∨ e.phase.isRelease = true ∧ e'.phase.isRelease = true
  pos : e'.pos = e.pos
  time : e'.time = e.time
  pressure : e'.pressure = e.pressure

/-- The event does not fit the contacts that are down: it presses one that is down already, or at a
position that is not finite, or it is no press and its contact is not down. -/
def Contacts.isStray [Scalar α] (t : Contacts α) (e : Event α) : Bool :=
  if e.phase = .start then !e.pos.isFinite || (t.get? e.contact).isSome
  else (t.get? e.contact).isNone

namespace Event.Alike

variable {e e' : Event α}

theorem refl (e : Event α) : e.Alike e := ⟨rfl, fun _ => rfl, .inl rfl, rfl, rfl, rfl⟩

theorem phase_eq (h : e.Alike e') (hphase : e.phase.isRelease = false) : e'.phase = e.phase := by
  rcases h.phase with hsame | ⟨hrelease, -⟩
  · exact hsame
  · rw [hphase] at hrelease
    cases hrelease

theorem isRelease_eq (h : e.Alike e') : e'.phase.isRelease = e.phase.isRelease := by
  rcases h.phase with hsame | ⟨hrelease, hrelease'⟩
  · rw [hsame]
  · rw [hrelease, hrelease']

theorem start_iff (h : e.Alike e') : e'.phase = .start ↔ e.phase = .start := by
  rcases h.phase with hsame | ⟨hrelease, hrelease'⟩
  · rw [hsame]
  · constructor
    · intro hstart
      rw [hstart] at hrelease'
      cases hrelease'
    · intro hstart
      rw [hstart] at hrelease
      cases hrelease

/-- A press tells the same only as itself. -/
theorem eq_of_start (h : e.Alike e') (hphase : e.phase = .start) : e' = e := by
  have hphase' : e'.phase = e.phase := (h.start_iff.mpr hphase).trans hphase.symm
  have hdevice := h.device hphase
  obtain ⟨hcontact, -, -, hpos, htime, hpressure⟩ := h
  cases e
  cases e'
  simp only [Event.mk.injEq]
  exact ⟨hcontact, hdevice, hphase', hpos, htime, hpressure⟩

variable [Scalar α]

theorem isStray_eq (h : e.Alike e') (t : Contacts α) : t.isStray e' = t.isStray e := by
  by_cases hphase : e.phase = .start
  · rw [h.eq_of_start hphase]
  · rw [Contacts.isStray, Contacts.isStray, if_neg hphase, if_neg (h.start_iff.not.mpr hphase),
      h.contact]

theorem follow_eq (h : e.Alike e') (c : Contact α) : c.follow e' = c.follow e := by
  rw [Contact.follow, Contact.follow, h.pos, h.time]

theorem update_eq (h : e.Alike e') (t : Contacts α) : t.update e' = t.update e := by
  simp only [Contacts.update, h.contact, h.follow_eq]

theorem release_eq (h : e.Alike e') (t : Contacts α) : t.release e' = t.release e := by
  simp only [Contacts.release, h.contact, h.follow_eq]

theorem sampleAt_eq (h : e.Alike e') (pos : Point α) (view : Viewport α) :
    Arbiter.sampleAt pos e' view = Arbiter.sampleAt pos e view := by
  rw [Arbiter.sampleAt, Arbiter.sampleAt, h.time, h.pressure]

theorem onMove_eq (h : e.Alike e') (a : Arbiter α) (c : Contact α) (view : Viewport α) :
    a.onMove c e' view = a.onMove c e view := by
  simp only [Arbiter.onMove, h.sampleAt_eq]

theorem onRelease_eq (h : e.Alike e') (a : Arbiter α) (c : Contact α) (view : Viewport α) :
    a.onRelease c e' view = a.onRelease c e view := by
  simp only [Arbiter.onRelease, h.sampleAt_eq]

end Event.Alike

namespace Arbiter

variable [Scalar α] {e e' : Event α}

/-- Events that tell the same are handled the same. -/
theorem handle_of_alike (h : e.Alike e') (a : Arbiter α) (view : Viewport α) (tool : Tool) :
    a.handle e' view tool = a.handle e view tool := by
  by_cases hstart : e.phase = .start
  · rw [h.eq_of_start hstart]
  have hstart' : e'.phase ≠ .start := h.start_iff.not.mpr hstart
  cases hc : a.contacts.get? e.contact with
  | none => rw [handle_of_lost hstart hc, handle_of_lost hstart' (by rw [h.contact, hc])]
  | some c =>
    -- The contact has the device of its press, and following the event does not read the event's own.
    by_cases hrelease : e.phase.isRelease = true
    · obtain ⟨contacts, hgone⟩ := Contacts.exists_release_eq hc
      have hgone' := (h.release_eq a.contacts).trans hgone
      rw [handle_of_release hrelease hgone,
        handle_of_release (h.isRelease_eq.trans hrelease) hgone', h.onRelease_eq]
    · obtain ⟨contacts, hmoved⟩ := Contacts.exists_update_eq hc
      have hmoved' := (h.update_eq a.contacts).trans hmoved
      have hmove : e.phase = .move := by
        cases hphase : e.phase with
        | move => rfl
        | start => exact absurd hphase hstart
        | lift | cancel => exact absurd (congrArg Phase.isRelease hphase) hrelease
      have hmove' := (h.phase_eq (Bool.eq_false_iff.mpr hrelease)).trans hmove
      rw [handle_of_update hmove hmoved, handle_of_update hmove' hmoved', h.onMove_eq]

theorem handle_of_stray {a : Arbiter α} (h : a.contacts.isStray e = true) (view : Viewport α)
    (tool : Tool) : a.handle e view tool = (a, none) := by
  unfold Contacts.isStray at h
  split at h
  next hstart =>
    have hrefused : a.contacts.press e = none := by
      rw [Contacts.press, if_neg]
      intro hfits
      obtain ⟨hfinite, hfree⟩ := Bool.and_eq_true_iff.mp hfits
      rw [hfinite, Option.isNone_iff_eq_none.mp hfree] at h
      cases h
    simp only [handle, hstart, hrefused]
  next hstart => exact handle_of_lost hstart (Option.isNone_iff_eq_none.mp h)

end Arbiter

/-! ## The arbiter as a listener -/

/-- The second signal tells an arbiter the same as the first, with the same viewport and tool. -/
inductive Signal.Alike : Signal α → Signal α → Prop where
  | cue {e e' : Event α} (alike : e.Alike e') (view : Viewport α) (tool : Tool) :
      Alike (.cue ⟨e, view, tool⟩) (.cue ⟨e', view, tool⟩)
  | interruption : Alike .interruption .interruption

/-- The signal is an event that does not fit the contacts that are down. -/
def Contacts.overlooks [Scalar α] (t : Contacts α) : Signal α → Bool
  | .cue q => t.isStray q.event
  | .interruption => false

/-- An arbiter takes no notice of stray events, and does not tell apart what tells it the same. -/
def Arbiter.listener [Scalar α] : Listener (Arbiter α) (Signal α) (Option (Command α)) where
  hear := respond
  Alike := Signal.Alike
  overlooks a signal := a.contacts.overlooks signal
  hear_congr h a := by
    cases h with
    | cue h view tool => exact a.handle_of_alike h view tool
    | interruption => rfl
  overlooks_congr h a := by
    cases h with
    | cue h view tool => exact h.isStray_eq a.contacts
    | interruption => rfl
  hear_of_overlooks {a signal} h := by
    cases signal with
    | cue q => exact congrArg Prod.fst (handle_of_stray h q.view q.tool)
    | interruption => cases h

end InkCanvas
