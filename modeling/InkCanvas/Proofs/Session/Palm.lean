import InkCanvas.Proofs.Gesture.Palm
import InkCanvas.Proofs.Session.Steered

/-! # What a palm does to the canvas

While a pen draws or erases, the events of other contacts can be left out of a run: the session is
the same afterwards, but for those contacts (`Session.pen_undisturbed`). The arbiter gives the same
commands either way, and the rest of the session never looks at it. -/

namespace InkCanvas

/-- The call passes on an event of another contact than the pen. -/
def Action.isOther {α : Type} (pen : ContactId) : Action α → Bool
  | .handle e => e.contact != pen
  | _ => false

/-- The call neither interrupts nor releases the pen. -/
def Action.Keeps {α : Type} (pen : ContactId) : Action α → Prop
  | .handle e => e.contact = pen → e.phase.isRelease = false
  | .interrupt => False
  | _ => True

namespace Session

variable {α : Type} [Scalar α]

/-! ## Two runs side by side -/

/-- Two sessions differ at most in contacts other than the pen. -/
def Beside (pen : ContactId) (s t : Session α) : Prop :=
  ∃ arbiter, Arbiter.Alike pen s.arbiter arbiter ∧ t = { s with arbiter }

variable {pen : ContactId} {s t : Session α}

omit [Scalar α] in
theorem Beside.refl (pen : ContactId) (s : Session α) : Beside pen s s :=
  ⟨s.arbiter, .refl pen s.arbiter, rfl⟩

theorem Beside.perform_other (h : Beside pen s t) (hs : s.arbiter.Drives pen) {a : Action α}
    (ha : a.isOther pen = true) : Beside pen (s.perform a).1 t := by
  obtain ⟨b, halike, rfl⟩ := h
  cases a with
  | handle e =>
    have he : e.contact ≠ pen := by simpa [Action.isOther] using ha
    obtain ⟨hnone, hother⟩ := hs.handle_other he s.view s.settings.tool
    rw [perform_handle_fst, hnone]
    exact ⟨b, hother.symm.trans halike, rfl⟩
  | _ => cases ha

theorem Beside.perform (h : Beside pen s t) (hs : s.arbiter.Drives pen) {a : Action α}
    (ha : a.isOther pen = false) : Beside pen (s.perform a).1 (t.perform a).1 := by
  obtain ⟨b, halike, rfl⟩ := h
  rcases a.event_or_interrupt_or_neither with ⟨e, rfl⟩ | rfl | ⟨hevent, hinterrupt⟩
  · obtain rfl : e.contact = pen := by simpa [Action.isOther] using ha
    obtain ⟨hcommand, hnext⟩ := halike.handle hs s.view s.settings.tool s.settings.tool
    refine ⟨(b.handle e s.view s.settings.tool).1, ?_, ?_⟩
    · rw [perform_handle_fst]
      exact hnext
    · rw [perform_handle_fst, perform_handle_fst]
      dsimp only
      rw [hcommand, obey?_steered]
  · rw [perform_interrupt_fst, perform_interrupt_fst, s.finishStroke_steered b]
    exact ⟨b.interrupt.1, ⟨halike.rules, rfl, rfl⟩, rfl⟩
  · rw [s.perform_steered b hevent hinterrupt]
    refine ⟨b, ?_, rfl⟩
    rwa [s.perform_arbiter hevent hinterrupt]

theorem drives_of_keeps (hs : s.arbiter.Drives pen) {a : Action α} (ha : a.Keeps pen) :
    (s.perform a).1.arbiter.Drives pen := by
  by_cases hevent : ∃ e, a = .handle e
  · obtain ⟨e, rfl⟩ := hevent
    change (s.handle e).1.arbiter.Drives pen
    rw [handle_arbiter]
    exact hs.handle_of_held ha _ _
  · have hinterrupt : a ≠ .interrupt := by rintro rfl; exact ha
    rwa [s.perform_arbiter (fun e he => hevent ⟨e, he⟩) hinterrupt]

/-- Leaving out the events of other contacts, up to the release of the pen, leaves the session the
same but for these contacts. -/
theorem Beside.run (h : Beside pen s t) (hs : s.arbiter.Drives pen) {before : List (Action α)}
    {last : Action α} (hbefore : ∀ a ∈ before, a.Keeps pen) :
    Beside pen (s.run (before ++ [last]))
      (t.run ((before ++ [last]).filter fun a => !a.isOther pen)) := by
  induction before generalizing s t with
  | nil =>
    rw [List.nil_append, List.filter_cons]
    split
    next hlast => exact h.perform hs (by simpa using hlast)
    next hlast => exact h.perform_other hs (by simpa using hlast)
  | cons a rest ih =>
    obtain ⟨ha, hrest⟩ := List.forall_mem_cons.mp hbefore
    rw [List.cons_append, run_cons, List.filter_cons]
    split
    next hpen => exact ih (h.perform hs (by simpa using hpen)) (drives_of_keeps hs ha) hrest
    next hother => exact ih (h.perform_other hs (by simpa using hother)) (drives_of_keeps hs ha) hrest

/-- While a pen draws or erases, up to the event that releases it and including that one, the
commands are those of its own events, whatever the tools are; every other event gives no command and
leaves the gesture alone; and without the other events a session is the same afterwards, but for the
other contacts. -/
theorem pen_undisturbed {a : Arbiter α} (ha : a.Drives pen) :
    (∀ (before : List (Cue α)) (last : Cue α) (solo : List (Cue α)), Arbiter.Holds pen before →
      solo.map Cue.scene =
        ((before ++ [last]).filter fun q => q.event.contact = pen).map Cue.scene →
      a.commands solo = a.commands (before ++ [last])) ∧
    (∀ (before : List (Cue α)) (q : Cue α), Arbiter.Holds pen before → q.event.contact ≠ pen →
      ((a.after before).handle q.event q.view q.tool).2 = none ∧
        ((a.after before).handle q.event q.view q.tool).1.gesture = (a.after before).gesture) ∧
    ∀ (s : Session α) (before : List (Action α)) (last : Action α), s.arbiter = a →
      (∀ x ∈ before, x.Keeps pen) → Beside pen (s.run (before ++ [last]))
        (s.run ((before ++ [last]).filter fun x => !x.isOther pen)) := by
  refine ⟨fun before last solo hbefore hsolo => ?_, fun before q hbefore hq => ?_,
    fun s before last hs hbefore => ?_⟩
  · exact (Arbiter.Alike.refl pen a).commands ha hbefore hsolo
  · obtain ⟨hnone, hother⟩ := (ha.after hbefore).handle_other hq q.view q.tool
    exact ⟨hnone, hother.gesture⟩
  · subst hs
    exact (Beside.refl pen s).run ha hbefore

/-- A pen draws while a finger and another pen come and go, and while the eraser is selected for a
moment. -/
theorem pen_undisturbed_by_palm :
    let start : Session Float := build Config.standard
    let event (id : ContactId) (device : Device) (phase : Phase) (x : Float) : Event Float :=
      ⟨id, device, phase, ⟨x, 0⟩, 0, none⟩
    let cue (tool : Tool) (e : Event Float) : Cue Float := ⟨e, start.view, tool⟩
    let s := start.run [.handle (event 1 .stylus .start 0)]
    let before := [event 2 .touch .start 50, event 1 .stylus .move 10, event 3 .stylus .start 70,
      event 2 .touch .lift 50]
    let last := event 1 .stylus .lift 20
    s.arbiter.Drives 1 ∧ (s.arbiter.commands ((before ++ [last]).map (cue .pen))).length = 2 ∧
      s.arbiter.commands [cue .eraser (event 1 .stylus .move 10), cue .pen last] =
        s.arbiter.commands ((before ++ [last]).map (cue .pen)) ∧
      (s.arbiter.handle (event 2 .touch .start 50) start.view .pen).2 = none ∧
      Beside 1 (s.run ((before ++ [last]).map .handle))
        (s.run [.handle (event 1 .stylus .move 10), .handle last]) := by
  intro start event cue s before last
  have hdrives : s.arbiter.Drives 1 := by
    have hgesture : s.arbiter.gesture.drawer? = some 1 := by decide +kernel
    have hdevice : (s.arbiter.contacts.get? 1).map Contact.device = some .stylus := by
      decide +kernel
    exact ⟨⟨.pen, Gesture.drawer?_eq_some_iff.mp hgesture⟩, Option.map_eq_some_iff.mp hdevice⟩
  obtain ⟨hcommands, hother, hrun⟩ := pen_undisturbed hdrives
  refine ⟨hdrives, by decide +kernel, ?_, ?_, ?_⟩
  · refine hcommands (before.map (cue .pen)) (cue .pen last) _ ?_ rfl
    simp [Arbiter.Holds, before, cue, event, Phase.isRelease]
  · exact (hother [] (cue .pen (event 2 .touch .start 50)) nofun nofun).1
  · refine hrun s (before.map .handle) (.handle last) rfl ?_
    simp [Action.Keeps, before, event, Phase.isRelease]

end Session
end InkCanvas
