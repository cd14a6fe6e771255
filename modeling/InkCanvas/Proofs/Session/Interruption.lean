import InkCanvas.Proofs.Session.History
import InkCanvas.Proofs.Session.Pinch

/-! # After an interruption

An interruption leaves the session at rest. A stroke that was being drawn, by a gesture or by the host, is
committed with the samples it had, as one step that can be taken back, and nothing else changes but the
gestures. From then on every event is ignored until a contact is pressed
(`Session.Reachable.interrupt_settles`). -/

namespace InkCanvas

/-- The call passes on the press of a contact. -/
def Action.isPress {α : Type} : Action α → Bool
  | .handle e => e.phase == .start
  | _ => false

/-- An arbiter that has been interrupted ignores every event but a press. -/
theorem Arbiter.handle_of_interrupt {α : Type} [Scalar α] {a : Arbiter α} (h : a.interrupt.1 = a)
    {e : Event α} (hphase : e.phase ≠ .start) (view : Viewport α) (tool : Tool) :
    a.handle e view tool = (a, none) := by
  refine handle_of_lost hphase ?_
  rw [← h]
  rfl

namespace Session

variable {α : Type} [Scalar α] {s : Session α} {l : Live α}

theorem perform_interrupt_of_none (h : s.live = none) :
    s.perform .interrupt = ({ s with arbiter := s.arbiter.interrupt.1 }, .changed false) := by
  rw [perform_interrupt, finishStroke_of_none h]
  rfl

theorem perform_interrupt_of_some (h : s.live = some l) :
    s.perform .interrupt = ({ s.settle l with arbiter := s.arbiter.interrupt.1 }, .changed true) := by
  rw [perform_interrupt, finishStroke_of_some h]
  rfl

theorem atRest_interrupt (s : Session α) : (s.perform .interrupt).1.AtRest := by
  rw [perform_interrupt_fst]
  exact ⟨rfl, rfl, s.finishStroke_live⟩

theorem undo_settle (h : 0 < s.limits.depth) (l : Live α) :
    (s.settle l).undo.2 = true ∧ (s.settle l).undo.1.strokes = s.strokes := by
  refine undo_commit ?_ _
  exact h

/-! ## Until the next press -/

/-- Without a press the gestures stay as an interruption leaves them. -/
theorem perform_arbiter_of_interrupt (h : s.arbiter.interrupt.1 = s.arbiter) {a : Action α}
    (ha : a.isPress = false) : (s.perform a).1.arbiter = s.arbiter := by
  rcases a.event_or_interrupt_or_neither with ⟨e, rfl⟩ | rfl | ⟨hevent, hinterrupt⟩
  · have hphase : e.phase ≠ .start := by simpa [Action.isPress] using ha
    rw [perform_handle_of_ignored (Arbiter.handle_of_interrupt h hphase _ _)]
  · rw [perform_interrupt_fst]
    exact h
  · exact s.perform_arbiter hevent hinterrupt

theorem run_arbiter_of_interrupt (h : s.arbiter.interrupt.1 = s.arbiter) {calls : List (Action α)}
    (hcalls : ∀ a ∈ calls, a.isPress = false) : (s.run calls).arbiter = s.arbiter := by
  induction calls generalizing s with
  | nil => rfl
  | cons a calls ih =>
    obtain ⟨ha, hcalls⟩ := List.forall_mem_cons.mp hcalls
    have hsame := perform_arbiter_of_interrupt h ha
    rw [run_cons, ih (by rw [hsame]; exact h) hcalls, hsame]

/-! ## The interruption -/

/-- An interruption leaves no stroke being drawn, no gesture and no contact, and the same viewport and
settings. A stroke that was being drawn gets the next number and lies on top with the samples it had; that
is one step of the history, and taking it back brings back the strokes there were. Without such a stroke
nothing changes but the gestures. A second interruption changes nothing, and neither does any move or
release, whatever else is called in between, until a contact is pressed. -/
theorem Reachable.interrupt_settles (hs : s.Reachable) :
    let t := (s.perform .interrupt).1
    t.AtRest ∧ t.view = s.view ∧ t.settings = s.settings ∧
    (∀ l, s.live = some l → (s.perform .interrupt).2 = .changed true ∧ Commits s l t ∧
      t.track = s.track.record (s.limits.depth + 1)
        (newest s.limits.items (s.strokes ++ [⟨s.committed + 1, l.stroke⟩])) ∧
      (t.perform .undo).2 = .changed true ∧ (t.perform .undo).1.strokes = s.strokes) ∧
    (s.live = none → s.perform .interrupt = ({ s with arbiter := t.arbiter }, .changed false)) ∧
    t.perform .interrupt = (t, .changed false) ∧
    ∀ calls : List (Action α), (∀ a ∈ calls, a.isPress = false) → ∀ e : Event α, e.phase ≠ .start →
      (t.run calls).perform (.handle e) = (t.run calls, .changed false) := by
  intro t
  have hinterrupted : t.arbiter.interrupt.1 = t.arbiter := by
    change (s.perform .interrupt).1.arbiter.interrupt.1 = (s.perform .interrupt).1.arbiter
    rw [perform_interrupt]
    rfl
  have hrest : t.AtRest := s.atRest_interrupt
  have hkept : t.view = s.view ∧ t.settings = s.settings := by
    change (s.perform .interrupt).1.view = _ ∧ (s.perform .interrupt).1.settings = _
    rw [perform_interrupt]
    exact ⟨s.finishStroke_view, s.finishStroke_settings⟩
  refine ⟨hrest, hkept.1, hkept.2, fun l hl => ?_, fun hl => ?_, ?_, fun calls hcalls e he => ?_⟩
  · have hsome := perform_interrupt_of_some hl
    have ht : t = { s.settle l with arbiter := s.arbiter.interrupt.1 } := congrArg Prod.fst hsome
    have hcommits : Commits s l (s.settle l) := commits_settle hs.items_pos l
    have hundo := perform_steered (s.settle l) s.arbiter.interrupt.1 (a := .undo) nofun nofun
    rw [hsome, ht]
    refine ⟨rfl, ⟨hcommits.committed, hcommits.last, hcommits.view⟩, ?_, ?_⟩
    · exact s.committing_track _
    · obtain ⟨hreport, hback⟩ := undo_settle hs.depth_pos l
      rw [hundo]
      exact ⟨congrArg Report.changed hreport, hback⟩
  · have hnone := perform_interrupt_of_none hl
    have ht : t = { s with arbiter := s.arbiter.interrupt.1 } := congrArg Prod.fst hnone
    rw [hnone, ht]
  · rw [perform_interrupt_of_none hrest.live, hinterrupted]
  · have hsame := run_arbiter_of_interrupt hinterrupted hcalls
    refine perform_handle_of_ignored (Arbiter.handle_of_interrupt ?_ he _ _)
    rw [hsame, hinterrupted]

/-- A pen comes down on a finger that draws, with the eraser selected, so the stroke of the finger is being
drawn while the pen erases. The interruption commits it; the moves and the lifts of both are ignored, also
after the host has opened a stroke itself. -/
theorem interrupt_settles_of_eraser_over_finger :
    let c : Config Float := { Config.standard with touchMode := .drawWithFinger }
    let event (id : ContactId) (device : Device) (phase : Phase) (x : Float) : Event Float :=
      ⟨id, device, phase, ⟨x, 10⟩, 0, none⟩
    let s := (build c).run [.handle (event 1 .touch .start 10), .handle (event 1 .touch .move 40),
      .setTool .eraser, .handle (event 2 .stylus .start 500)]
    let t := (s.perform .interrupt).1
    let u := t.run [.handle (event 2 .stylus .move 400), .beginStroke ⟨⟨0, 0⟩, 0, none⟩]
    s.Reachable ∧ s.live.isSome = true ∧ s.gesture? = some .erase ∧ s.strokes.length = 0 ∧
      t.AtRest ∧ t.strokes.map (fun ink => ink.stroke.samples.length) = [2] ∧
      t.perform .interrupt = (t, .changed false) ∧
      u.perform (.handle (event 1 .touch .lift 40)) = (u, .changed false) := by
  intro c event s t u
  have hc : ofConfig c = .ok (build c) :=
    ofConfig_eq_ok_iff.mpr ⟨Option.isNone_iff_eq_none.mp (by decide +kernel), rfl⟩
  have hs : s.Reachable := ⟨_, _, _, hc, rfl⟩
  obtain ⟨hrest, -, -, -, -, hagain, hstale⟩ := hs.interrupt_settles
  refine ⟨hs, by decide +kernel, by decide +kernel, by decide +kernel, hrest, by decide +kernel,
    hagain, hstale _ ?_ _ (by decide)⟩
  simp [Action.isPress, event]

end Session
end InkCanvas
