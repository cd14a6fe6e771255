import InkCanvas.Proofs.Curve
import InkCanvas.Proofs.Gesture.Retract
import InkCanvas.Proofs.Session.Commit
import InkCanvas.Proofs.Session.Stranded

/-! # What becomes of a stroke

As long as the host leaves strokes to the gestures, a stroke is drawn until a call commits it, with all
the samples it had. Only a dot can be dropped, by a second finger or by a pen that takes over from the
finger (`Session.run_drawn_until_committed`). -/

namespace InkCanvas

variable {α : Type}

/-- The stroke `t` is `s`, or goes on from where `s` ends. -/
structure Stroke.BeginningOf (s t : Stroke α) : Prop where
  samples : s.samples <+: t.samples
  style : t.style = s.style
  tool : t.tool = s.tool

namespace Stroke.BeginningOf

theorem refl (s : Stroke α) : s.BeginningOf s := ⟨List.prefix_rfl, rfl, rfl⟩

theorem trans {s t u : Stroke α} (h : s.BeginningOf t) (h' : t.BeginningOf u) : s.BeginningOf u :=
  ⟨h.samples.trans h'.samples, h'.style.trans h.style, h'.tool.trans h.tool⟩

theorem length_le {s t : Stroke α} (h : s.BeginningOf t) : s.length ≤ t.length :=
  h.samples.length_le

end Stroke.BeginningOf

theorem Live.beginningOf_of_extend [Scalar α] {l m : Live α} {next : Sample α}
    (h : l.extend next = .ok m) : l.stroke.BeginningOf m.stroke := by
  obtain ⟨hsamples, hstyle, htool⟩ := Stroke.samples_of_extend (Live.of_extend h).1
  exact ⟨hsamples ▸ List.prefix_append .., hstyle, htool⟩

theorem Live.isDot_of_start [Scalar α] {first : Sample α} {settings : Settings α} {l : Live α}
    (h : Live.start first settings = .ok l) : l.stroke.isDot = true := by
  have hstroke : l.stroke = _ := Stroke.eq_of_start (Live.of_start h).1
  rw [hstroke]
  rfl

namespace Session

/-- The stroke is still being drawn, and nothing has been committed. -/
structure StillDraws (s t : Session α) (stroke : Stroke α) : Prop where
  committed : t.committed = s.committed
  live : ∃ m, t.live = some m ∧ stroke.BeginningOf m.stroke

variable [Scalar α]

/-- The stroke has been committed, on top of all others. -/
def Lands (s t : Session α) (stroke : Stroke α) : Prop :=
  ∃ m, Commits s m t ∧ stroke.BeginningOf m.stroke

/-- The stroke is still being drawn after each of the calls. -/
def DrawsThrough (s : Session α) (calls : List (Action α)) (stroke : Stroke α) : Prop :=
  ∀ done, done <+: calls → s.StillDraws (s.run done) stroke

/-- The call passes on an event that takes back what a finger draws. -/
def TakesBack (s : Session α) (a : Action α) : Prop :=
  ∃ e, a = .handle e ∧ s.arbiter.Retracts e s.settings.tool

/-- A contact that draws and has not moved has drawn no more than a dot. -/
def Dotted (s : Session α) : Prop :=
  ∀ id kept, s.arbiter.gesture = .inking id .pen kept false →
    ∀ l, s.live = some l → l.stroke.isDot = true

variable {s t u : Session α} {stroke : Stroke α} {l : Live α}

omit [Scalar α] in
theorem StillDraws.trans {m : Live α} (h : s.StillDraws t stroke) (hm : t.live = some m)
    (h' : t.StillDraws u m.stroke) : s.StillDraws u stroke := by
  obtain ⟨n, hn, hle⟩ := h.live
  obtain rfl := Option.some.inj (hn.symm.trans hm)
  obtain ⟨o, ho, hle'⟩ := h'.live
  exact ⟨h'.committed.trans h.committed, o, ho, hle.trans hle'⟩

theorem drawsThrough_append_singleton {calls : List (Action α)} {a : Action α}
    (h : s.DrawsThrough calls stroke) (ha : s.StillDraws (s.run (calls ++ [a])) stroke) :
    s.DrawsThrough (calls ++ [a]) stroke := by
  intro done hdone
  rcases List.prefix_concat_iff.mp hdone with rfl | hbefore
  · exact ha
  · exact h done hbefore

/-! ## One call -/

omit [Scalar α] in
theorem Inkless.stillDraws (h : Inkless s t) (hl : s.live = some l) : s.StillDraws t l.stroke :=
  ⟨h.committed, l, h.live.trans hl, .refl l.stroke⟩

section
variable (hroom : 0 < s.limits.items) (hl : s.live = some l)
include hroom hl

theorem finishStroke_lands : s.Lands s.finishStroke.1 l.stroke := by
  rw [finishStroke_of_some hl]
  exact ⟨l, commits_settle hroom l, .refl l.stroke⟩

theorem beginStroke_lands (first : Sample α) : s.Lands (s.beginStroke first).1 l.stroke := by
  obtain ⟨live, revision, heq⟩ := s.exists_beginStroke_eq first
  obtain ⟨m, hcommits, hle⟩ := finishStroke_lands hroom hl
  rw [heq]
  exact ⟨m, ⟨hcommits.committed, hcommits.last, hcommits.view⟩, hle⟩

theorem finish_lands (last : Option (Sample α)) : s.Lands (s.obey (.finish last)).1 l.stroke := by
  cases last with
  | none => exact finishStroke_lands hroom hl
  | some p =>
    change s.Lands (s.extendStroke p).1.finishStroke.1 l.stroke
    cases h : l.extend p with
    | error e =>
      rw [extendStroke_of_error hl h]
      exact finishStroke_lands hroom hl
    | ok m =>
      rw [extendStroke_of_ok hl h]
      obtain ⟨n, hcommits, hle⟩ :=
        finishStroke_lands (s := touch { s with live := some m }) hroom rfl
      exact ⟨n, ⟨hcommits.committed, hcommits.last, hcommits.view⟩,
        (Live.beginningOf_of_extend h).trans hle⟩

omit hroom in
theorem extendStroke_stillDraws (next : Sample α) :
    s.StillDraws (s.extendStroke next).1 l.stroke := by
  cases h : l.extend next with
  | error e =>
    rw [extendStroke_of_error hl h]
    exact ⟨rfl, l, hl, .refl l.stroke⟩
  | ok m =>
    rw [extendStroke_of_ok hl h]
    exact ⟨rfl, m, rfl, Live.beginningOf_of_extend h⟩

/-- A command that does not drop the stroke leaves it or commits it. -/
theorem obey_keeps {command : Command α} (hkeeps : command.drops = false) :
    s.StillDraws (s.obey command).1 l.stroke ∨ s.Lands (s.obey command).1 l.stroke := by
  cases command with
  | begin first => exact .inr (beginStroke_lands hroom hl first)
  | extend next => exact .inl (extendStroke_stillDraws hl next)
  | finish last => exact .inr (finish_lands hroom hl last)
  | cancel | restart => cases hkeeps
  | erase p =>
    have hsame := s.eraseAt_inkless p
    exact .inl ⟨hsame.committed, (hsame.stillDraws hl).live⟩
  | view v => exact .inl ((s.view_inkless v).stillDraws hl)

/-- A call that does not take the stroke back leaves it or commits it. -/
theorem perform_keeps (ha : s.arbiter.Anchored) {a : Action α} (hcall : a.isStrokeCall = false)
    (hkeeps : ¬s.TakesBack a) :
    s.StillDraws (s.perform a).1 l.stroke ∨ s.Lands (s.perform a).1 l.stroke := by
  rcases a.event_or_interrupt_or_neither with ⟨e, rfl⟩ | rfl | ⟨hevent, hinterrupt⟩
  · rw [perform_handle_fst]
    cases hcommand : (s.arbiter.handle e s.view s.settings.tool).2 with
    | none => exact .inl ⟨rfl, l, hl, .refl l.stroke⟩
    | some command =>
      have hdrops : command.drops = false := by
        rw [Bool.eq_false_iff]
        exact fun hdrops => hkeeps ⟨e, rfl, Arbiter.retracts_of_drops ha hcommand hdrops⟩
      rcases obey_keeps hroom hl hdrops with h | ⟨m, hcommits, hle⟩
      · exact .inl ⟨h.committed, h.live⟩
      · exact .inr ⟨m, ⟨hcommits.committed, hcommits.last, hcommits.view⟩, hle⟩
  · rw [perform_interrupt_fst]
    obtain ⟨m, hcommits, hle⟩ := finishStroke_lands hroom hl
    exact .inr ⟨m, ⟨hcommits.committed, hcommits.last, hcommits.view⟩, hle⟩
  · exact .inl ((s.perform_inkless hcall hevent hinterrupt).stillDraws hl)

end

/-- An event that takes a stroke back commits nothing. A second finger makes a pinch with the first,
and a pen draws instead of the finger. -/
theorem takenBack {e : Event α} (h : s.arbiter.Retracts e s.settings.tool) :
    (∃ finger, s.drawer? = some finger ∧ s.arbiter.contacts.isFinger finger = true ∧
      finger ≠ e.contact) ∧
    (s.handle e).1.committed = s.committed ∧
    (e.device = .touch → (s.handle e).1.live = none ∧ (s.handle e).1.gesture? = some .pinch) ∧
    (e.device = .stylus → (s.handle e).1.drawer? = some e.contact ∧
      (s.handle e).1.live =
        (Live.start (Arbiter.sampleAt e.pos e s.view) s.settings).toOption) := by
  refine ⟨h.exists_drawer, ?_⟩
  have hperform : (s.handle e).1 = _ := s.perform_handle_fst e
  cases hdevice : e.device with
  | touch =>
    obtain ⟨hcommand, hpinch⟩ := h.awaits.handle h.phase hdevice h.press s.view s.settings.tool
    rw [if_pos h.kind?] at hcommand
    rw [hperform, hcommand]
    exact ⟨s.cancelStroke_committed, fun _ => ⟨s.cancelStroke_live, hpinch⟩, nofun⟩
  | stylus =>
    obtain ⟨hcommand, hgesture⟩ := h.handle_pen hdevice s.view
    rw [hperform, hcommand]
    refine ⟨?_, nofun, fun _ => ⟨?_, ?_⟩⟩
    · obtain ⟨live, revision, heq⟩ :=
        s.cancelStroke.1.exists_beginStroke_eq (Arbiter.sampleAt e.pos e s.view)
      change (s.cancelStroke.1.beginStroke _).1.committed = _
      rw [heq, finishStroke_of_none s.cancelStroke_live]
      exact s.cancelStroke_committed
    · rw [drawer?, hgesture]
      rfl
    · change (s.cancelStroke.1.beginStroke _).1.live = _
      rw [beginStroke_live, cancelStroke_settings]

/-! ## Runs -/

theorem Turn.dotted {g g' : Gesture α} {command : Option (Command α)} (h : Turn g command g')
    (hs : ∀ id kept, g = .inking id .pen kept false → ∀ l, s.live = some l → l.stroke.isDot = true)
    (id : ContactId) (kept : Point α) (hg : g' = .inking id .pen kept false) :
    ∀ l, (s.obey? command).1.live = some l → l.stroke.isDot = true := by
  have hopened {first : Sample α} (l : Live α)
      (hl : (Live.start first s.settings).toOption = some l) : l.stroke.isDot = true := by
    cases hstart : Live.start first s.settings with
    | error e => rw [hstart] at hl; cases hl
    | ok m =>
      rw [hstart] at hl
      obtain rfl := Option.some.inj hl
      exact Live.isDot_of_start hstart
  cases h with
  | rest => exact hs id kept hg
  | steer _ after => exact absurd (by rw [hg]; rfl) after
  | begin _ first =>
    intro l hl
    exact hopened l ((s.beginStroke_live first).symm.trans hl)
  | restart _ _ first =>
    intro l hl
    have hlive := s.cancelStroke.1.beginStroke_live first
    rw [cancelStroke_settings] at hlive
    exact hopened l (hlive.symm.trans hl)
  | extend | finish | erase => cases hg
  | cancel _ _ pinches => rw [hg] at pinches; cases pinches
  | view navigates v => rw [hg] at navigates; rcases navigates with h | h <;> cases h

theorem dotted_build (c : Config α) : (build c).Dotted := by
  intro id kept hg
  cases hg

theorem Dotted.perform (h : s.Dotted) {a : Action α} (hcall : a.isStrokeCall = false) :
    (s.perform a).1.Dotted := by
  rcases a.event_or_interrupt_or_neither with ⟨e, rfl⟩ | rfl | ⟨hevent, hinterrupt⟩
  · rw [perform_handle_fst]
    by_cases hover : s.arbiter.Overruled e s.settings.tool
    · intro id kept hg
      cases (Arbiter.handle_of_overruled hover).2.symm.trans hg
    · exact Turn.dotted (Arbiter.handle_turn hover) h
  · rw [perform_interrupt_fst]
    intro id kept hg
    cases hg
  · intro id kept hg l hl
    rw [s.perform_arbiter hevent hinterrupt] at hg
    rw [(s.perform_inkless hcall hevent hinterrupt).live] at hl
    exact h id kept hg l hl

theorem anchored_perform (h : s.arbiter.Anchored) (a : Action α) :
    (s.perform a).1.arbiter.Anchored :=
  s.perform_arbiter_keeps (fun _ e view tool hb => hb.handle e view tool)
    (fun _ _ => Arbiter.anchored_idle rfl) h a

theorem anchored_run (h : s.arbiter.Anchored) (actions : List (Action α)) :
    (s.run actions).arbiter.Anchored := by
  induction actions generalizing s with
  | nil => exact h
  | cons a actions ih => exact ih (anchored_perform h a)

theorem Dotted.run (h : s.Dotted) {actions : List (Action α)}
    (hcalls : ∀ a ∈ actions, a.isStrokeCall = false) : (s.run actions).Dotted := by
  induction actions generalizing s with
  | nil => exact h
  | cons a actions ih =>
    obtain ⟨ha, hrest⟩ := List.forall_mem_cons.mp hcalls
    exact ih (h.perform ha) hrest

theorem Dotted.isDot (h : s.Dotted) (hl : s.live = some l) {a : Action α} (ha : s.TakesBack a) :
    l.stroke.isDot = true := by
  obtain ⟨e, -, hretracts⟩ := ha
  obtain ⟨finger, kept, hg, -⟩ := hretracts.resting
  exact h finger kept hg l hl

/-- A stroke of several samples is drawn until a call commits it. -/
theorem drawsThrough_or_lands (hs : s.Reachable) (hdotted : s.Dotted) (ha : s.arbiter.Anchored)
    (hl : s.live = some l) (hlong : 1 < l.stroke.length) {calls : List (Action α)}
    (hcalls : ∀ a ∈ calls, a.isStrokeCall = false) :
    s.DrawsThrough calls l.stroke ∨
      ∃ before a after, calls = before ++ a :: after ∧ s.DrawsThrough before l.stroke ∧
        (s.run before).Lands (s.run (before ++ [a])) l.stroke := by
  -- By induction from the last call. The stroke so far has no fewer samples, so it is no dot that the
  -- call could take back.
  induction calls using List.reverseRecOn with
  | nil =>
    refine .inl fun done hdone => ?_
    obtain rfl := List.prefix_nil.mp hdone
    exact ⟨rfl, l, hl, .refl l.stroke⟩
  | append_singleton calls b ih =>
    rw [List.forall_mem_append, List.forall_mem_singleton] at hcalls
    obtain ⟨hcalls, hb⟩ := hcalls
    rcases ih hcalls with hdraws | ⟨before, a, after, rfl, hdraws, hlands⟩
    · have hsofar := hdraws calls List.prefix_rfl
      obtain ⟨m, hm, hle⟩ := hsofar.live
      have hkeeps : ¬(s.run calls).TakesBack b := by
        intro htakes
        have hdot := (hdotted.run hcalls).isDot hm htakes
        have hlength := hle.length_le
        simp only [Stroke.isDot, List.isEmpty_iff_length_eq_zero] at hdot
        simp only [Stroke.length] at hlong hlength
        omega
      have hlast := s.run_append_singleton calls b
      rcases perform_keeps (hs.run calls).items_pos hm (anchored_run ha calls) hb hkeeps
        with hstill | ⟨n, hcommits, hle'⟩
      · rw [← hlast] at hstill
        exact .inl (drawsThrough_append_singleton hdraws (hsofar.trans hm hstill))
      · rw [← hlast] at hcommits
        exact .inr ⟨calls, b, [], rfl, hdraws, n, hcommits, hle.trans hle'⟩
    · exact .inr ⟨before, a, after ++ [b], by simp, hdraws, hlands⟩

/-- Over every run from a valid configuration in which the host leaves strokes to the gestures, the
stroke being drawn is left or committed by every call but one kind: the start of a second finger, or
of a pen that is to draw, beside a finger that has not moved since it began to draw. That call drops
the stroke, which is still a dot, and the two fingers then pinch or the pen draws. So a stroke of
several samples is drawn through whatever calls follow, until one of them commits it. -/
theorem run_drawn_until_committed {c : Config α} {start : Session α} (hc : ofConfig c = .ok start)
    {actions : List (Action α)} (hcalls : ∀ a ∈ actions, a.isStrokeCall = false)
    (hl : (start.run actions).live = some l) :
    let s := start.run actions
    (∀ a, a.isStrokeCall = false → ¬s.TakesBack a →
      s.StillDraws (s.perform a).1 l.stroke ∨ s.Lands (s.perform a).1 l.stroke) ∧
    (∀ e, s.TakesBack (.handle e) → l.stroke.isDot = true ∧
      (∃ finger, s.drawer? = some finger ∧ s.arbiter.contacts.isFinger finger = true ∧
        finger ≠ e.contact) ∧
      (s.handle e).1.committed = s.committed ∧
      (e.device = .touch → (s.handle e).1.live = none ∧ (s.handle e).1.gesture? = some .pinch) ∧
      (e.device = .stylus → (s.handle e).1.drawer? = some e.contact ∧ (s.handle e).1.live =
        (Live.start (Arbiter.sampleAt e.pos e s.view) s.settings).toOption)) ∧
    (1 < l.stroke.length → ∀ calls, (∀ a ∈ calls, a.isStrokeCall = false) →
      s.DrawsThrough calls l.stroke ∨
        ∃ before a after, calls = before ++ a :: after ∧ s.DrawsThrough before l.stroke ∧
          (s.run before).Lands (s.run (before ++ [a])) l.stroke) := by
  intro s
  have hs : s.Reachable := ⟨c, start, actions, hc, rfl⟩
  obtain ⟨-, rfl⟩ := ofConfig_eq_ok_iff.mp hc
  have hdotted : s.Dotted := (dotted_build c).run hcalls
  have ha : s.arbiter.Anchored := anchored_run (Arbiter.anchored_idle rfl) actions
  refine ⟨?_, ?_, ?_⟩
  · intro a hcall hkeeps
    exact perform_keeps hs.items_pos hl ha hcall hkeeps
  · intro e htakes
    have hdot := hdotted.isDot hl htakes
    obtain ⟨_, heq, hretracts⟩ := htakes
    cases heq
    exact ⟨hdot, takenBack hretracts⟩
  · intro hlong calls hcalls
    exact drawsThrough_or_lands hs hdotted ha hl hlong hcalls

/-- A finger draws, and a pen takes over from it to erase. The stroke of the finger outlives both
contacts, until the pen draws the next one. -/
theorem run_drawn_until_committed_of_eraser_over_finger :
    let c : Config Float := { Config.standard with touchMode := .drawWithFinger }
    let finger (phase : Phase) (x : Float) : Action Float :=
      .handle ⟨1, .touch, phase, ⟨x, 10⟩, 0, none⟩
    let pen (phase : Phase) (x : Float) : Action Float :=
      .handle ⟨2, .stylus, phase, ⟨x, 500⟩, 5, none⟩
    let s := (build c).run [finger .start 10, finger .move 40]
    let calls := [.setTool .eraser, pen .start 500, finger .lift 40, pen .lift 500, .setTool .pen,
      pen .start 300, pen .move 400]
    ∃ l, s.live = some l ∧ l.stroke.length = 2 ∧
      ∃ before a after, calls = before ++ a :: after ∧ s.DrawsThrough before l.stroke ∧
        (s.run before).Lands (s.run (before ++ [a])) l.stroke := by
  intro c finger pen s calls
  have hc : ofConfig c = .ok (build c) :=
    ofConfig_eq_ok_iff.mpr ⟨Option.isNone_iff_eq_none.mp (by decide +kernel), rfl⟩
  obtain ⟨l, hl⟩ := Option.isSome_iff_exists.mp (by decide +kernel : s.live.isSome = true)
  have hlength : s.live.map (fun l => l.stroke.length) = some 2 := by decide +kernel
  rw [hl] at hlength
  have htwo : l.stroke.length = 2 := Option.some.inj hlength
  obtain ⟨-, -, hruns⟩ := run_drawn_until_committed hc
    (by simp [finger, Action.isStrokeCall]) hl
  have hcalls : ∀ a ∈ calls, a.isStrokeCall = false := by
    simp [calls, finger, pen, Action.isStrokeCall]
  refine ⟨l, hl, htwo, (hruns (by omega) calls hcalls).resolve_left fun hdraws => ?_⟩
  have hsame := (hdraws calls List.prefix_rfl).committed
  have hmore : (s.run calls).committed ≠ s.committed := by decide +kernel
  exact hmore hsame

end Session
end InkCanvas
