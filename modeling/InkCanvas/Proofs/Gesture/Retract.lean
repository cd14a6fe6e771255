import InkCanvas.Proofs.Gesture.Anchored
import InkCanvas.Proofs.Gesture.Pinch

/-! # When a stroke is taken back

A finger that draws may have been the first of two, or a resting hand. As long as it has not moved, its
stroke is dropped when another finger comes down, which makes the two a pinch, or when a pen that is to
draw does, which draws instead (`Arbiter.Retracts`). No other event drops a stroke
(`Arbiter.retracts_of_drops`). -/

namespace InkCanvas

variable {α : Type}

/-- The command drops the stroke that is open. -/
def Command.drops : Command α → Bool
  | .cancel | .restart _ => true
  | .begin _ | .extend _ | .finish _ | .erase _ | .view _ => false

theorem Turn.of_drops {g g' : Gesture α} {command : Command α} (h : Turn g (some command) g')
    (hdrops : command.drops = true) : ∃ finger kept, g = .inking finger .pen kept false := by
  cases h with
  | restart drawer kept | cancel drawer kept => exact ⟨drawer, kept, rfl⟩
  | begin | extend | finish | erase | view => cases hdrops

namespace Arbiter

variable [Scalar α]

/-- Another finger comes down while a finger draws that has not moved yet, or a pen that is to draw
does. -/
structure Retracts (a : Arbiter α) (e : Event α) (tool : Tool) : Prop where
  phase : e.phase = .start
  press : (a.contacts.press e).isSome = true
  tool : e.device = .stylus → tool = .pen
  resting : ∃ finger kept, a.gesture = .inking finger .pen kept false ∧
    a.contacts.isFinger finger = true

variable {a : Arbiter α} {e : Event α} {tool : Tool} {command : Command α}

theorem Retracts.awaits (h : a.Retracts e tool) : a.Awaits := by
  obtain ⟨finger, kept, hg, hfinger⟩ := h.resting
  exact ⟨finger, hfinger, .inr ⟨.pen, kept, hg⟩⟩

theorem Retracts.kind? (h : a.Retracts e tool) : a.kind? = some .draw := by
  obtain ⟨finger, kept, hg, -⟩ := h.resting
  rw [Arbiter.kind?, hg]
  rfl

theorem Retracts.exists_drawer (h : a.Retracts e tool) : ∃ finger, a.gesture.drawer? = some finger ∧
    a.contacts.isFinger finger = true ∧ finger ≠ e.contact := by
  obtain ⟨finger, kept, hg, hfinger⟩ := h.resting
  refine ⟨finger, by rw [hg]; rfl, hfinger, ?_⟩
  rintro rfl
  have hfree := Contacts.get?_eq_none_of_press h.press
  rw [Contacts.isFinger, hfree] at hfinger
  cases hfinger

/-- A pen that takes over from a resting finger draws in its place. -/
theorem Retracts.handle_pen (h : a.Retracts e tool) (hdevice : e.device = .stylus)
    (view : Viewport α) : (a.handle e view tool).2 = some (.restart (sampleAt e.pos e view)) ∧
      (a.handle e view tool).1.gesture = .inking e.contact .pen e.pos false := by
  obtain ⟨finger, kept, hg, hfinger⟩ := h.resting
  obtain ⟨⟨c, contacts⟩, hpress⟩ := Option.isSome_iff_exists.mp h.press
  obtain rfl := Contacts.eq_ofEvent_of_press hpress
  have hstylus : (Contact.ofEvent e).device = .stylus := hdevice
  have hfinger := Contacts.isFinger_of_press_of_isFinger hpress hfinger
  simp only [handle, h.phase, hpress, hstylus, onPen, hg, hfinger, if_true, h.tool hdevice,
    startInking]
  exact ⟨rfl, rfl⟩

/-- Only such an event drops a stroke. -/
theorem retracts_of_drops (ha : a.Anchored) {view : Viewport α}
    (h : (a.handle e view tool).2 = some command) (hdrops : command.drops = true) :
    a.Retracts e tool := by
  have hover : ¬a.Overruled e tool := by
    intro hover
    obtain rfl := Option.some.inj (h.symm.trans (handle_of_overruled hover).1)
    cases hdrops
  have hturn : Turn a.gesture (a.handle e view tool).2 _ := handle_turn hover
  rw [h] at hturn
  obtain ⟨finger, kept, hg⟩ := hturn.of_drops hdrops
  obtain ⟨d, hd⟩ := Option.isSome_iff_exists.mp (ha.isSome_get? hg)
  have hr := a.handled e view tool
  generalize a.handle e view tool = r at hr h
  cases hr with
  | ignored => cases h
  | @pen contacts phase device press =>
    simp only [onPen, hg] at h
    split at h
    next hfinger =>
      rw [Contacts.isFinger_of_press press device] at hfinger
      refine ⟨phase, Option.isSome_of_eq_some press, fun _ => ?_, finger, kept, hg, hfinger⟩
      cases tool with
      | pen => rfl
      | eraser =>
        obtain rfl := Option.some.inj h
        cases hdrops
    next => cases h
  | @finger contacts phase device press =>
    simp only [onFinger, hg] at h
    split at h
    next hresting =>
      have hfinger : contacts.isFinger finger = true := by simpa using hresting
      have hsame : contacts.isFinger finger = a.contacts.isFinger finger := by
        rw [Contacts.isFinger, Contacts.isFinger, hd, Contacts.get?_of_press_of_eq_some press hd]
      refine ⟨phase, Option.isSome_of_eq_some press, fun hpen => ?_, finger, kept, hg, hsame ▸ hfinger⟩
      rw [device] at hpen
      cases hpen
    next => cases h
  | moved =>
    simp only [onMove, hg] at h
    split at h
    next =>
      obtain rfl := Option.some.inj h
      cases hdrops
    next => cases h
  | released =>
    simp only [onRelease, hg] at h
    split at h
    next =>
      obtain rfl := Option.some.inj h
      cases hdrops
    next => cases h

end Arbiter
end InkCanvas
