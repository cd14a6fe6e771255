import InkCanvas.Proofs.Gesture.Retelling
import InkCanvas.Proofs.Session.Steered

/-! # What a session takes no notice of

Two runs of a session whose events tell the arbiter the same cannot be told apart: every call gives the same
command and the same report, and the sessions are equal afterwards. Stray events can be added to either of
them, wherever they do not fit the contacts that are down (`Session.retold`). -/

namespace InkCanvas

variable {α : Type}

/-- The second call tells a session the same as the first: it is the same, or both pass on events that
tell an arbiter the same. -/
inductive Action.Alike : Action α → Action α → Prop where
  | same (a : Action α) : Alike a a
  | event {e e' : Event α} (alike : e.Alike e') : Alike (.handle e) (.handle e')

namespace Session

variable [Scalar α] {s : Session α} {a a' : Action α} {e e' : Event α}

/-- The command that the arbiter gives at a call. -/
def command? (s : Session α) : Action α → Option (Command α)
  | .handle e => (s.arbiter.handle e s.view s.settings.tool).2
  | .interrupt => s.arbiter.interrupt.2
  | _ => none

/-- The session after a call, and what is told of the call: the command and the report. -/
def respond (s : Session α) (a : Action α) : Session α × Option (Command α) × Report :=
  ((s.perform a).1, s.command? a, (s.perform a).2)

/-- The call passes on an event that does not fit the contacts that are down. -/
def overlooks (s : Session α) : Action α → Bool
  | .handle e => s.arbiter.contacts.isStray e
  | _ => false

theorem perform_of_alike (h : a.Alike a') (s : Session α) : s.perform a' = s.perform a := by
  cases h with
  | same => rfl
  | event h => rw [perform, perform, handle_eq, handle_eq, Arbiter.handle_of_alike h]

theorem respond_of_alike (h : a.Alike a') (s : Session α) : s.respond a' = s.respond a := by
  rw [respond, respond, perform_of_alike h]
  cases h with
  | same => rfl
  | event h => rw [command?, command?, Arbiter.handle_of_alike h]

theorem respond_of_stray (h : s.arbiter.contacts.isStray e = true) :
    s.respond (.handle e) = (s, none, .changed false) := by
  have hignored := Arbiter.handle_of_stray h s.view s.settings.tool
  rw [respond, perform_handle_of_ignored hignored, command?, hignored]

/-- A session takes no notice of stray events, and does not tell apart what tells it the same. -/
def listener : Listener (Session α) (Action α) (Option (Command α) × Report) where
  hear := respond
  Alike := Action.Alike
  overlooks := overlooks
  hear_congr := respond_of_alike
  overlooks_congr h s := by
    cases h with
    | same => rfl
    | event h => exact h.isStray_eq s.arbiter.contacts
  hear_of_overlooks {s a} h := by
    cases a with
    | handle e => exact congrArg Prod.fst (respond_of_stray h)
    | _ => cases h

/-- Let two runs start at the same session, with calls that differ pairwise at most in events: in the device
of one that is no press, and in that one is lifted and the other taken away. Then every call gives the same
command and reports the same, and the sessions are equal afterwards. The same holds of the other calls if
either run has stray events as well, which give no command, report no change and leave the session as it
is. An arbiter alone, with whatever viewports and tools, does not tell such runs apart either. -/
theorem retold :
    (∀ (s : Session α) (calls calls' : List (Action α)), List.Forall₂ Action.Alike calls calls' →
      s.run calls' = s.run calls ∧ listener.answers s calls' = listener.answers s calls) ∧
    (∀ (s : Session α) (calls calls' : List (Action α)), listener.Retells s calls calls' →
      s.run calls' = s.run calls ∧ listener.heard s calls' = listener.heard s calls) ∧
    (∀ (s : Session α) (e : Event α), s.arbiter.contacts.isStray e = true →
      s.respond (.handle e) = (s, none, .changed false)) ∧
    (∀ (a : Arbiter α) (signals signals' : List (Signal α)),
      List.Forall₂ Signal.Alike signals signals' →
      a.told signals' = a.told signals ∧
        Arbiter.listener.answers a signals' = Arbiter.listener.answers a signals) ∧
    (∀ (a : Arbiter α) (signals signals' : List (Signal α)),
      Arbiter.listener.Retells a signals signals' →
      a.told signals' = a.told signals ∧
        Arbiter.listener.heard a signals' = Arbiter.listener.heard a signals) ∧
    ∀ (a : Arbiter α) (e : Event α) (view : Viewport α) (tool : Tool),
      a.contacts.isStray e = true → a.handle e view tool = (a, none) := by
  refine ⟨fun s calls calls' h => ?_, fun s calls calls' h => ⟨h.after_eq, h.heard_eq⟩,
    fun s e h => respond_of_stray h, fun a signals signals' h => ?_,
    fun a signals signals' h => ⟨h.after_eq, h.heard_eq⟩,
    fun a e view tool h => Arbiter.handle_of_stray h view tool⟩
  · have hretells : listener.Retells s calls calls' := .of_forall₂ h
    exact ⟨hretells.after_eq, Listener.answers_eq_of_forall₂ h⟩
  · have hretells : Arbiter.listener.Retells a signals signals' := .of_forall₂ h
    exact ⟨hretells.after_eq, Listener.answers_eq_of_forall₂ h⟩

/-- A finger draws a line. In the second run it is said to be a pen as it moves, and is taken away in the
end. In the third run a contact moves that is not down, the finger is pressed once more, another one at no
position, and the finger is lifted twice. -/
theorem retold_of_restless_finger :
    let c : Config Float := { Config.standard with touchMode := .drawWithFinger }
    let s : Session Float := build c
    let event (id : ContactId) (device : Device) (phase : Phase) (x : Float) : Event Float :=
      ⟨id, device, phase, ⟨x, 0⟩, 0, none⟩
    let cue (e : Event Float) : Signal Float := .cue ⟨e, s.view, s.settings.tool⟩
    let line := [event 1 .touch .start 10, event 1 .touch .move 40, event 1 .touch .lift 60]
    let flipped := [event 1 .touch .start 10, event 1 .stylus .move 40, event 1 .stylus .cancel 60]
    let noisy := [event 7 .stylus .move 5, event 1 .touch .start 10, event 1 .stylus .start 20,
      event 2 .touch .start (0 / 0), event 1 .touch .move 40, event 1 .touch .lift 60,
      event 1 .touch .lift 60]
    List.Forall₂ Action.Alike (line.map .handle) (flipped.map .handle) ∧
      listener.Retells s (line.map .handle) (noisy.map .handle) ∧
      Arbiter.listener.Retells s.arbiter (line.map cue) (noisy.map cue) ∧
      (s.run (line.map .handle)).strokes.map (fun ink => ink.stroke.samples.length) = [3] ∧
      s.run (flipped.map .handle) = s.run (line.map .handle) ∧
      listener.answers s (flipped.map .handle) = listener.answers s (line.map .handle) ∧
      s.run (noisy.map .handle) = s.run (line.map .handle) ∧
      (listener.heard s (noisy.map .handle)).map Prod.snd = [.changed true, .changed true, .changed true] ∧
      s.respond (.handle (event 7 .stylus .move 5)) = (s, none, .changed false) ∧
      s.arbiter.told (flipped.map cue) = s.arbiter.told (line.map cue) ∧
      s.arbiter.told (noisy.map cue) = s.arbiter.told (line.map cue) ∧
      s.arbiter.handle (event 7 .stylus .move 5) s.view .eraser = (s.arbiter, none) := by
  intro c s event cue line flipped noisy
  have hmove : (event 1 .touch .move 40).Alike (event 1 .stylus .move 40) :=
    ⟨rfl, nofun, .inl rfl, rfl, rfl, rfl⟩
  have hrelease : (event 1 .touch .lift 60).Alike (event 1 .stylus .cancel 60) :=
    ⟨rfl, nofun, .inr ⟨rfl, rfl⟩, rfl, rfl, rfl⟩
  have hflipped : List.Forall₂ Action.Alike (line.map .handle) (flipped.map .handle) :=
    .cons (.same _) (.cons (.event hmove) (.cons (.event hrelease) .nil))
  have hflippedCues : List.Forall₂ Signal.Alike (line.map cue) (flipped.map cue) :=
    .cons (.cue (.refl _) _ _) (.cons (.cue hmove _ _) (.cons (.cue hrelease _ _) .nil))
  have hnoisy : listener.Retells s (line.map .handle) (noisy.map .handle) := by
    refine .right (by decide +kernel) (.alike (.same _) ?_)
    refine .right (by decide +kernel) (.right (by decide +kernel) (.alike (.same _) ?_))
    exact .alike (.same _) (.right (by decide +kernel) (.nil _))
  have hnoisyCues : Arbiter.listener.Retells s.arbiter (line.map cue) (noisy.map cue) := by
    refine .right (by decide +kernel) (.alike (.cue (.refl _) _ _) ?_)
    refine .right (by decide +kernel) (.right (by decide +kernel) (.alike (.cue (.refl _) _ _) ?_))
    exact .alike (.cue (.refl _) _ _) (.right (by decide +kernel) (.nil _))
  have hstray : s.arbiter.contacts.isStray (event 7 .stylus .move 5) = true := by decide +kernel
  obtain ⟨hcalls, htold, hignored, hcues, htoldCues, hignoredCue⟩ := @retold Float _
  obtain ⟨hrun, hanswers⟩ := hcalls s _ _ hflipped
  obtain ⟨hrun', hheard⟩ := htold s _ _ hnoisy
  refine ⟨hflipped, hnoisy, hnoisyCues, by decide +kernel, hrun, hanswers, hrun', ?_,
    hignored s _ hstray, (hcues _ _ _ hflippedCues).1, (htoldCues _ _ _ hnoisyCues).1,
    hignoredCue _ _ _ _ hstray⟩
  rw [hheard]
  decide +kernel

end Session
end InkCanvas
