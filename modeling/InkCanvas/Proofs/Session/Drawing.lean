import InkCanvas.Proofs.Capture
import InkCanvas.Proofs.Gesture.Inking
import InkCanvas.Proofs.Session.Redraw
import InkCanvas.Proofs.Session.View

/-! # The stroke that a contact draws

A contact that draws gives samples one by one. What is taken of its movement can be told from the events
of the contact alone: a `Sketch` follows them, and the stroke that the session draws is the stroke of the
sketch, whatever other calls come in between (`Session.Drawing.run`). -/

namespace InkCanvas

variable {α : Type} [Scalar α]

/-- What of a movement goes far enough from what was taken before. -/
def spaced (δ : α) (kept : Point α) : List (Point α) → List (Point α)
  | [] => []
  | p :: rest => if p.distance kept < δ then spaced δ kept rest else p :: spaced δ p rest

/-- Where a contact is after each of its events. -/
def Contact.places (c : Contact α) : List (Event α) → List (Point α)
  | [] => []
  | e :: rest => (c.follow e).pos :: (c.follow e).places rest

/-! ## Sketches -/

/-- A stroke on its way. -/
structure Sketch (α : Type) where
  /-- The contact that draws it. -/
  contact : Contact α
  /-- What it is made from. -/
  draft : Draft α
  /-- Where its last sample is on the screen. -/
  kept : Point α

namespace Sketch

/-- The sketch that an event opens. -/
def opened (settings : Settings α) (e : Event α) (view : Viewport α) : Sketch α :=
  ⟨.ofEvent e, ⟨settings, Arbiter.sampleAt e.pos e view, []⟩, e.pos⟩

/-- The sketch after a move of its contact. -/
def moved (δ : α) (view : Viewport α) (k : Sketch α) (e : Event α) : Sketch α :=
  let c := k.contact.follow e
  if c.pos.distance k.kept < δ then { k with contact := c }
  else ⟨c, k.draft.extended (Arbiter.sampleAt c.pos e view), c.pos⟩

/-- The sample that the release of the contact adds. -/
def last? (tap : UInt64) (view : Viewport α) (k : Sketch α) (e : Event α) : Option (Sample α) :=
  let c := k.contact.follow e
  if !(k.draft.later.isEmpty && decide (c.duration ≤ tap)) && c.pos != k.kept then
    some (Arbiter.sampleAt c.pos e view)
  else
    none

/-- What the stroke is made from once the contact is released. -/
def finished (tap : UInt64) (view : Viewport α) (k : Sketch α) (e : Event α) : Draft α :=
  match k.last? tap view e with
  | some last => k.draft.extended last
  | none => k.draft

variable {k : Sketch α} {δ : α} {view : Viewport α}

theorem identity_moved (k : Sketch α) (δ : α) (view : Viewport α) (e : Event α) :
    (k.moved δ view e).contact.id = k.contact.id ∧
      (k.moved δ view e).contact.device = k.contact.device := by
  unfold moved
  dsimp only
  split <;> exact ⟨rfl, rfl⟩

theorem mem_samples_moved (e : Event α) {x : Sample α} (h : x ∈ k.draft.samples) :
    x ∈ (k.moved δ view e).draft.samples := by
  unfold moved
  dsimp only
  split
  · exact h
  · rw [Draft.samples_extended]
    exact List.mem_append_left _ h

theorem identity_foldl_moved (k : Sketch α) (δ : α) (view : Viewport α) (moves : List (Event α)) :
    (moves.foldl (moved δ view) k).contact.id = k.contact.id ∧
      (moves.foldl (moved δ view) k).contact.device = k.contact.device := by
  induction moves generalizing k with
  | nil => exact ⟨rfl, rfl⟩
  | cons e moves ih =>
    obtain ⟨hid, hdevice⟩ := ih (k.moved δ view e)
    obtain ⟨hid', hdevice'⟩ := k.identity_moved δ view e
    exact ⟨hid.trans hid', hdevice.trans hdevice'⟩

/-- What a whole movement leaves: the samples that go far enough, and the contact where it is then. -/
theorem foldl_moved (k : Sketch α) (δ : α) (view : Viewport α) (moves : List (Event α)) :
    (moves.foldl (moved δ view) k).contact = moves.foldl Contact.follow k.contact ∧
    (moves.foldl (moved δ view) k).draft.settings = k.draft.settings ∧
    (moves.foldl (moved δ view) k).draft.samples.map Sample.pos = k.draft.samples.map Sample.pos ++
      (spaced δ k.kept (k.contact.places moves)).map view.toCanvas ∧
    (moves.foldl (moved δ view) k).kept =
      (spaced δ k.kept (k.contact.places moves)).getLastD k.kept := by
  induction moves generalizing k with
  | nil => simp [spaced, Contact.places]
  | cons e moves ih =>
    obtain ⟨hcontact, hsettings, hsamples, hkept⟩ := ih (k.moved δ view e)
    rw [List.foldl_cons, hcontact, hsettings, hsamples, hkept, Contact.places, spaced]
    by_cases hnear : (k.contact.follow e).pos.distance k.kept < δ
    · have hmoved : k.moved δ view e = { k with contact := k.contact.follow e } := if_pos hnear
      rw [hmoved, if_pos hnear]
      exact ⟨rfl, rfl, rfl, rfl⟩
    · have hmoved : k.moved δ view e = ⟨k.contact.follow e,
          k.draft.extended (Arbiter.sampleAt (k.contact.follow e).pos e view),
          (k.contact.follow e).pos⟩ := if_neg hnear
      rw [hmoved, if_neg hnear]
      refine ⟨rfl, rfl, ?_, by rw [List.getLastD_cons]⟩
      simp [Draft.samples_extended, Arbiter.sampleAt]

end Sketch

/-! ## Calls that go with a movement -/

omit [Scalar α] in
/-- The call neither releases the contact nor puts a finger beside it while it is a finger, and it neither
works on the stroke being drawn nor moves the canvas. -/
def Action.Spares (id : ContactId) (device : Device) : Action α → Prop
  | .handle e =>
    if e.contact = id then e.phase.isRelease = false else e.phase = .start → device = .stylus
  | .eraseAt _ | .undo | .redo | .clear | .setTool _ | .setColor _ | .setWidth _ | .takeNotices => True
  | _ => False

omit [Scalar α] in
/-- The event that a call passes on, if it is a move of the contact. -/
def Action.moveOf? (id : ContactId) : Action α → Option (Event α)
  | .handle e => if e.contact = id ∧ e.phase = .move then some e else none
  | _ => none

omit [Scalar α] in
theorem Action.of_moveOf? {id : ContactId} {a : Action α} {e : Event α} (h : a.moveOf? id = some e) :
    a = .handle e ∧ e.contact = id ∧ e.phase = .move := by
  cases a with
  | handle e' =>
    obtain ⟨hmove, heq⟩ := Option.ite_none_right_eq_some.mp h
    obtain rfl := Option.some.inj heq
    exact ⟨rfl, hmove⟩
  | _ => cases h

namespace Session

/-- The stroke that is being drawn is the one of a sketch. -/
structure Drawing (s : Session α) (k : Sketch α) : Prop where
  arbiter : s.arbiter.Draws k.contact k.kept (!k.draft.later.isEmpty)
  live : ∃ l, s.live = some l ∧ k.draft.stroke = .ok l.stroke

/-- The event gives a command that opens a stroke. -/
def Opens (s : Session α) (e : Event α) : Prop :=
  ∃ first, (s.arbiter.handle e s.view s.settings.tool).2.bind Command.opened? = some first

variable {s : Session α} {k : Sketch α} {e : Event α}

theorem perform_rules (s : Session α) (a : Action α) :
    (s.perform a).1.arbiter.rules = s.arbiter.rules := by
  refine s.perform_arbiter_keeps (P := fun b => b.rules = s.arbiter.rules) ?_ ?_ rfl a
  · intro b e view tool hb
    exact (b.rules_handle e view tool).trans hb
  · intro b hb
    exact hb

theorem run_rules (s : Session α) (actions : List (Action α)) :
    (s.run actions).arbiter.rules = s.arbiter.rules := by
  induction actions generalizing s with
  | nil => rfl
  | cons a actions ih => exact (ih (s.perform a).1).trans (s.perform_rules a)

/-- Gestures are decided by the configuration. -/
theorem Reachable.rules (h : s.Reachable) : s.arbiter.rules = s.config.gestureRules := by
  obtain ⟨c, start, actions, hc, rfl⟩ := h
  obtain ⟨-, rfl⟩ := ofConfig_eq_ok_iff.mp hc
  rw [run_rules, run_config]
  rfl

/-- An event that opens a stroke at a finite position of the canvas begins a sketch. -/
theorem Opens.drawing (h : s.Opens e)
    (hwidth : Scalar.isPositive s.settings.style.width = true)
    (hfinite : (s.view.toCanvas e.pos).isFinite = true) :
    (s.perform (.handle e)).1.Drawing (.opened s.settings e s.view) ∧
      (s.perform (.handle e)).1.view = s.view := by
  obtain ⟨first, h⟩ := h
  obtain ⟨-, rfl, hdraws⟩ := Arbiter.draws_of_opened h
  have hfirst : (Arbiter.sampleAt e.pos e s.view).pos.isFinite = true := hfinite
  obtain ⟨l, hl⟩ := (Live.exists_start_eq_ok_iff hwidth).mpr hfirst
  have hstroke := (Draft.stroke_opened s.settings _).trans (Live.of_start hl).1
  rw [perform_handle_fst]
  cases hcommand : (s.arbiter.handle e s.view s.settings.tool).2 with
  | none =>
    rw [hcommand] at h
    cases h
  | some command =>
    rw [hcommand] at h
    cases command with
    | begin first =>
      obtain rfl := Option.some.inj h
      refine ⟨⟨hdraws, l, ?_, hstroke⟩, s.beginStroke_view _⟩
      change (s.beginStroke _).1.live = some l
      rw [beginStroke_live, hl]
      rfl
    | restart first =>
      obtain rfl := Option.some.inj h
      refine ⟨⟨hdraws, l, ?_, hstroke⟩,
        (s.cancelStroke.1.beginStroke_view _).trans s.cancelStroke_view⟩
      change (s.cancelStroke.1.beginStroke _).1.live = some l
      rw [beginStroke_live, cancelStroke_settings, hl]
      rfl
    | _ => cases h

namespace Drawing

/-- A move of the contact adds to the sketch what it adds to the stroke. -/
theorem move (h : s.Drawing k) (hcontact : e.contact = k.contact.id) (hphase : e.phase = .move)
    (hfinite : ∀ x ∈ (k.moved s.arbiter.rules.minSampleDistance s.view e).draft.samples,
      x.pos.isFinite = true) :
    (s.perform (.handle e)).1.Drawing (k.moved s.arbiter.rules.minSampleDistance s.view e) ∧
      (s.perform (.handle e)).1.view = s.view := by
  obtain ⟨l, hl, hstroke⟩ := h.live
  have hmove := h.arbiter.handle_move hcontact hphase s.view s.settings.tool
  rw [perform_handle_fst]
  by_cases hnear : (k.contact.follow e).pos.distance k.kept < s.arbiter.rules.minSampleDistance
  · obtain ⟨hcommand, hdraws⟩ := (if_pos hnear).mp hmove
    have hmoved : k.moved s.arbiter.rules.minSampleDistance s.view e =
        { k with contact := k.contact.follow e } := if_pos hnear
    rw [hcommand, hmoved]
    exact ⟨⟨hdraws, l, hl, hstroke⟩, rfl⟩
  · obtain ⟨hcommand, hdraws⟩ := (if_neg hnear).mp hmove
    have hmoved : k.moved s.arbiter.rules.minSampleDistance s.view e = ⟨k.contact.follow e,
        k.draft.extended (Arbiter.sampleAt (k.contact.follow e).pos e s.view),
        (k.contact.follow e).pos⟩ := if_neg hnear
    rw [hmoved] at hfinite ⊢
    generalize Arbiter.sampleAt (k.contact.follow e).pos e s.view = next at hcommand hfinite ⊢
    have hnext : next.pos.isFinite = true := hfinite next (by simp [Draft.samples_extended])
    obtain ⟨m, hm⟩ := l.exists_extend_eq_ok hnext
    have hlive : (s.extendStroke next).1.live = some m := by rw [extendStroke_of_ok hl hm]; rfl
    have hlater : (!(k.draft.extended next).later.isEmpty) = true := by simp [Draft.extended]
    rw [hcommand]
    refine ⟨⟨?_, m, hlive, ?_⟩, s.extendStroke_view next⟩
    · rw [hlater]
      exact hdraws
    · rw [Draft.stroke_extended, hstroke]
      exact (Live.of_extend hm).1

/-- Every other call that spares the contact leaves the sketch as it is. -/
theorem other (h : s.Drawing k) {a : Action α} (ha : a.Spares k.contact.id k.contact.device)
    (hmove : a.moveOf? k.contact.id = none) :
    (s.perform a).1.Drawing k ∧ (s.perform a).1.view = s.view := by
  by_cases hevent : ∃ e, a = .handle e
  · obtain ⟨e, rfl⟩ := hevent
    have hnone : (s.arbiter.handle e s.view s.settings.tool).2 = none ∧
        (s.arbiter.handle e s.view s.settings.tool).1.Draws k.contact k.kept
          (!k.draft.later.isEmpty) := by
      by_cases hcontact : e.contact = k.contact.id
      · have hphase : e.phase = .start := by
          simp only [Action.Spares, Action.moveOf?, hcontact, if_true, true_and] at ha hmove
          cases hp : e.phase with
          | start => rfl
          | move => simp [hp] at hmove
          | lift | cancel => rw [hp] at ha; cases ha
        rw [h.arbiter.handle_start hcontact hphase s.view s.settings.tool]
        exact ⟨rfl, h.arbiter⟩
      · have hpen : e.phase = .start → k.contact.device = .stylus := by
          simpa [Action.Spares, hcontact] using ha
        exact h.arbiter.handle_other hcontact hpen s.view s.settings.tool
    obtain ⟨hcommand, hdraws⟩ := hnone
    rw [perform_handle_fst, hcommand]
    exact ⟨⟨hdraws, h.live⟩, rfl⟩
  · have hevent : ∀ e, a ≠ .handle e := fun e he => hevent ⟨e, he⟩
    have hquiet : a.isStrokeCall = false ∧ a.navigates = false ∧ a ≠ .interrupt := by
      cases a with
      | handle e => exact absurd rfl (hevent e)
      | eraseAt | undo | redo | clear | setTool | setColor | setWidth | takeNotices =>
        exact ⟨rfl, rfl, nofun⟩
      | _ => exact ha.elim
    obtain ⟨hcall, hnavigates, hinterrupt⟩ := hquiet
    refine ⟨⟨?_, ?_⟩, ?_⟩
    · rw [s.perform_arbiter hevent hinterrupt]
      exact h.arbiter
    · rw [(s.perform_inkless hcall hevent hinterrupt).live]
      exact h.live
    · rcases s.perform_view hevent with heq | ⟨hmoves, -⟩
      · exact heq
      · rw [hnavigates] at hmoves
        cases hmoves

/-- The sketch follows the moves of its contact, whatever calls that spare it come in between. -/
theorem run (h : s.Drawing k) {calls : List (Action α)}
    (hcalls : ∀ a ∈ calls, a.Spares k.contact.id k.contact.device)
    (hfinite : ∀ x ∈ ((calls.filterMap (Action.moveOf? k.contact.id)).foldl
      (Sketch.moved s.arbiter.rules.minSampleDistance s.view) k).draft.samples,
      x.pos.isFinite = true) :
    (s.run calls).Drawing ((calls.filterMap (Action.moveOf? k.contact.id)).foldl
        (Sketch.moved s.arbiter.rules.minSampleDistance s.view) k) ∧
      (s.run calls).view = s.view := by
  -- By induction from the last call: the samples so far are among those of the whole movement.
  induction calls using List.reverseRecOn with
  | nil => exact ⟨h, rfl⟩
  | append_singleton before a ih =>
    rw [List.forall_mem_append, List.forall_mem_singleton] at hcalls
    obtain ⟨hbefore, ha⟩ := hcalls
    have hrules := congrArg GestureRules.minSampleDistance (s.run_rules before)
    rw [List.filterMap_append, List.foldl_append] at hfinite ⊢
    generalize hsofar : (before.filterMap (Action.moveOf? k.contact.id)).foldl
      (Sketch.moved s.arbiter.rules.minSampleDistance s.view) k = sofar at ih hfinite ⊢
    obtain ⟨hid, hdevice⟩ : sofar.contact.id = k.contact.id ∧
        sofar.contact.device = k.contact.device := hsofar ▸ Sketch.identity_foldl_moved ..
    rw [run_append]
    cases hmove : a.moveOf? k.contact.id with
    | none =>
      simp only [List.filterMap_cons, hmove, List.filterMap_nil, List.foldl_nil] at hfinite ⊢
      obtain ⟨hdrawing, hview⟩ := ih hbefore hfinite
      obtain ⟨hafter, hsame⟩ := hdrawing.other (by rwa [hid, hdevice]) (by rwa [hid])
      exact ⟨hafter, hsame.trans hview⟩
    | some e =>
      obtain ⟨rfl, hcontact, hphase⟩ := Action.of_moveOf? hmove
      simp only [List.filterMap_cons, hmove, List.filterMap_nil, List.foldl_cons, List.foldl_nil]
        at hfinite ⊢
      obtain ⟨hdrawing, hview⟩ := ih hbefore fun x hx => hfinite x (Sketch.mem_samples_moved e hx)
      rw [← hrules, ← hview] at hfinite ⊢
      obtain ⟨hafter, hsame⟩ := hdrawing.move (hcontact.trans hid.symm) hphase hfinite
      exact ⟨hafter, hsame⟩

/-- The release of the contact commits the stroke of the sketch, with the last sample if there is one. -/
theorem release (h : s.Drawing k) (hroom : 0 < s.limits.items) (hcontact : e.contact = k.contact.id)
    (hphase : e.phase.isRelease = true)
    (hfinite : ∀ x, k.last? s.arbiter.rules.tapMaxDuration s.view e = some x →
      x.pos.isFinite = true) :
    ∃ l, (k.finished s.arbiter.rules.tapMaxDuration s.view e).stroke = .ok l.stroke ∧
      Commits s l (s.perform (.handle e)).1 ∧ (s.perform (.handle e)).1.live = none := by
  obtain ⟨l, hl, hstroke⟩ := h.live
  have hcommand := h.arbiter.handle_release hcontact hphase s.view s.settings.tool
  rw [Bool.not_not] at hcommand
  change _ = some (Command.finish (k.last? s.arbiter.rules.tapMaxDuration s.view e)) at hcommand
  rw [perform_handle_fst, hcommand, Sketch.finished]
  cases hlast : k.last? s.arbiter.rules.tapMaxDuration s.view e with
  | none =>
    have hobey : (s.obey? (some (.finish none))).1 = s.settle l :=
      congrArg Prod.fst (finishStroke_of_some hl)
    obtain ⟨hcommitted, htop, hview⟩ := commits_settle hroom l
    rw [hobey]
    exact ⟨l, hstroke, ⟨hcommitted, htop, hview⟩, rfl⟩
  | some x =>
    obtain ⟨m, hm⟩ := l.exists_extend_eq_ok (hfinite x hlast)
    have hobey : (s.obey? (some (.finish (some x)))).1 =
        settle (touch { s with live := some m }) m := by
      change (s.extendStroke x).1.finishStroke.1 = _
      rw [extendStroke_of_ok hl hm]
      rfl
    obtain ⟨hcommitted, htop, hview⟩ :=
      commits_settle (s := touch { s with live := some m }) hroom m
    rw [hobey]
    refine ⟨m, ?_, ⟨hcommitted, htop, hview⟩, rfl⟩
    rw [Draft.stroke_extended, hstroke]
    exact (Live.of_extend hm).1

end Drawing

end Session
end InkCanvas
