import InkCanvas.Proofs.Eraser
import InkCanvas.Proofs.Gesture.Pinch
import InkCanvas.Proofs.Session.Commit
import InkCanvas.Proofs.Session.Drawing

/-! # What a pinch does to the canvas

Two fingers that come down on a canvas at rest take back whatever the first one drew, and their moves
change no more than the viewport. What the first one erased is not put back: so a pinch edits the drawing
exactly if fingers draw, the eraser is selected and the first finger touches a stroke
(`Session.Reachable.two_fingers_edit_iff`). -/

namespace InkCanvas
namespace Session

variable {α : Type} [Scalar α]

omit [Scalar α] in
/-- No contact is down, no gesture goes on and no stroke is being drawn. -/
structure AtRest (s : Session α) : Prop where
  gesture : s.gesture? = none
  contacts : s.arbiter.contacts.down = []
  live : s.live = none

/-- The eraser at the point touches a stroke on the canvas. -/
def EraserHits (s : Session α) (p : Point α) : Prop :=
  p.isFinite = true ∧ ∃ ink ∈ s.strokes, Eraser.touches p s.config.eraserRadius ink.stroke = true

/-- The event is a finger that erases, where there is something to erase. -/
def Bites (s : Session α) (e : Event α) : Prop :=
  s.config.touchMode = .drawWithFinger ∧ s.settings.tool = .eraser ∧
    s.EraserHits (s.view.toCanvas e.pos)

variable {s : Session α} {e : Event α}

/-! ## The eraser -/

theorem eraseAt_of_not_hits (hradius : Scalar.isPositive s.config.eraserRadius = true) {p : Point α}
    (h : ¬s.EraserHits p) : (s.eraseAt p).1 = s := by
  unfold eraseAt
  split
  next remaining hremaining =>
    exact absurd ((Eraser.exists_erase_eq_some_iff hradius).mp ⟨remaining, hremaining⟩) h
  next => rfl
  next => rfl

/-- Where the eraser hits something, the canvas has fewer strokes afterwards. -/
theorem timeline_eraseAt_ne (hradius : Scalar.isPositive s.config.eraserRadius = true) {p : Point α}
    (h : s.EraserHits p) : (s.eraseAt p).1.timeline ≠ s.timeline := by
  obtain ⟨remaining, hremaining⟩ := (Eraser.exists_erase_eq_some_iff hradius).mpr h
  have herased : (s.eraseAt p).1 = s.commit remaining := by
    unfold eraseAt
    rw [hremaining]
  have hpresent : (s.eraseAt p).1.timeline.present = newest s.limits.items remaining := by
    rw [herased]
    rfl
  have hfewer := Eraser.length_lt_of_erase hremaining
  have hkept : (newest s.limits.items remaining).length ≤ remaining.length :=
    (List.drop_sublist _ _).length_le
  intro heq
  rw [heq] at hpresent
  rw [← hpresent] at hkept
  exact absurd hfewer (Nat.not_lt.mpr hkept)

/-! ## The two fingers -/

omit [Scalar α] in
theorem AtRest.idle (h : s.AtRest) : s.arbiter.gesture = .idle :=
  Gesture.eq_idle_of_kind? h.gesture

omit [Scalar α] in
/-- Dropping a stroke changes nothing else. -/
theorem exists_cancelStroke_eq (s : Session α) :
    ∃ revision, s.cancelStroke.1 = { s with live := none, revision } := by
  cases hl : s.live with
  | none =>
    rw [cancelStroke_of_none hl]
    exact ⟨s.revision, by rw [← hl]⟩
  | some l =>
    rw [cancelStroke_of_some hl]
    exact ⟨s.revision + 1, rfl⟩

/-- A stroke that is begun and dropped leaves no trace. -/
theorem exists_cancelStroke_beginStroke_eq (hl : s.live = none) (first : Sample α) :
    ∃ revision, (s.beginStroke first).1.cancelStroke.1 = { s with revision } := by
  obtain ⟨live, revision, hbegun⟩ := s.exists_beginStroke_eq first
  rw [finishStroke_of_none hl] at hbegun
  obtain ⟨revision', hdropped⟩ := (s.beginStroke first).1.exists_cancelStroke_eq
  rw [hdropped, hbegun]
  exact ⟨revision', by rw [← hl]⟩

/-- The second finger pinches with one that awaits it, and drops what that one draws. -/
theorem handle_second_finger (ha : s.arbiter.Awaits) (he : e.FingerDown)
    (hfree : s.arbiter.contacts.get? e.contact = none) : ∃ arbiter, arbiter.kind? = some .pinch ∧
      (s.perform (.handle e)).1 =
        { (if s.gesture? = some .draw then s.cancelStroke.1 else s) with arbiter } := by
  have hpress := Option.isSome_of_eq_some (Contacts.press_of_isFinite he.finite hfree)
  obtain ⟨hcommand, hpinch⟩ := ha.handle he.phase he.device hpress s.view s.settings.tool
  refine ⟨_, hpinch, ?_⟩
  rw [perform_handle_fst, hcommand, gesture?]
  split <;> rfl

/-- Two fingers that come down one after the other pinch. Nothing else shows of the first one but what
it erased. -/
theorem Reachable.two_fingers (hs : s.Reachable) (hrest : s.AtRest) {p q : Event α}
    (hp : p.FingerDown) (hq : q.FingerDown) (hne : q.contact ≠ p.contact) :
    ∃ revision arbiter, arbiter.kind? = some .pinch ∧ s.run [.handle p, .handle q] =
      { (if s.config.touchMode = .drawWithFinger ∧ s.settings.tool = .eraser then
          (s.eraseAt (s.view.toCanvas p.pos)).1 else s) with revision, arbiter } := by
  obtain ⟨hawaits, hdown, hpans, hdraws, herases⟩ :=
    Arbiter.handle_lone_finger hrest.idle hrest.contacts hp s.view s.settings.tool
  rw [hs.rules] at hpans hdraws herases
  have ht : (s.perform (.handle p)).1.arbiter = (s.arbiter.handle p s.view s.settings.tool).1 := by
    rw [perform_handle_fst]
  have hgesture : (s.perform (.handle p)).1.gesture? = _ := congrArg Arbiter.kind? ht
  have hfree : (s.perform (.handle p)).1.arbiter.contacts.get? q.contact = none := by
    rw [ht, Contacts.get?, hdown]
    simp [Contact.ofEvent, hne.symm]
  obtain ⟨arbiter, hpinch, hrun⟩ := handle_second_finger (ht ▸ hawaits) hq hfree
  rw [run_cons, run_cons, run_nil, hrun, hgesture]
  -- The second finger drops a stroke only if the first one draws, so what that one does is told apart.
  cases hmode : s.config.touchMode with
  | panOnly =>
    obtain ⟨hcommand, hkind⟩ := hpans hmode
    rw [hkind, if_neg (by decide), if_neg (by simp), perform_handle_fst, hcommand]
    exact ⟨s.revision, arbiter, hpinch, rfl⟩
  | drawWithFinger =>
    cases htool : s.settings.tool with
    | pen =>
      obtain ⟨hcommand, hkind⟩ := hdraws hmode htool
      obtain ⟨revision, hdropped⟩ := exists_cancelStroke_beginStroke_eq hrest.live
        (Arbiter.sampleAt p.pos p s.view)
      rw [← htool, hkind, if_pos rfl, perform_handle_fst, hcommand, cancelStroke_steered, htool,
        if_neg (by simp)]
      change ∃ revision' arbiter', _ ∧
        { (s.beginStroke (Arbiter.sampleAt p.pos p s.view)).1.cancelStroke.1 with arbiter } = _
      rw [hdropped]
      exact ⟨revision, arbiter, hpinch, rfl⟩
    | eraser =>
      obtain ⟨hcommand, hkind⟩ := herases hmode htool
      rw [← htool, hkind, if_neg (by decide), perform_handle_fst, hcommand, htool, if_pos ⟨rfl, rfl⟩]
      exact ⟨(s.eraseAt (s.view.toCanvas p.pos)).1.revision, arbiter, hpinch, rfl⟩

/-! ## Moves -/

/-- While fingers pinch, moves change no more than the viewport and where the contacts are. -/
theorem exists_run_moves_eq (hpinch : s.gesture? = some .pinch) {moves : List (Event α)}
    (hmoves : ∀ e ∈ moves, e.phase = .move) : ∃ view revision contacts,
      s.run (moves.map .handle) =
        { s with view, revision, arbiter := { s.arbiter with contacts } } := by
  induction moves generalizing s with
  | nil => exact ⟨s.view, s.revision, s.arbiter.contacts, rfl⟩
  | cons e moves ih =>
    obtain ⟨he, hrest⟩ := List.forall_mem_cons.mp hmoves
    obtain ⟨⟨contacts, harbiter⟩, hcommand⟩ :=
      Arbiter.handle_move_of_pinch hpinch he s.view s.settings.tool
    obtain ⟨view, revision, hstep⟩ : ∃ view revision, (s.perform (.handle e)).1 =
        { s with view, revision, arbiter := { s.arbiter with contacts } } := by
      rw [perform_handle_fst, harbiter]
      rcases hcommand with hcommand | ⟨v, hcommand⟩
      · rw [hcommand]
        exact ⟨s.view, s.revision, rfl⟩
      · rw [hcommand]
        simp only [obey?, obey]
        split
        next => exact ⟨s.view, s.revision, rfl⟩
        next => exact ⟨v, s.revision + 1, rfl⟩
    have hstill : (s.perform (.handle e)).1.gesture? = some .pinch := by
      rw [hstep]
      exact hpinch
    obtain ⟨view', revision', contacts', hrun⟩ := ih hstill hrest
    rw [List.map_cons, run_cons, hrun, hstep]
    exact ⟨view', revision', contacts', rfl⟩

/-- On a canvas at rest two fingers that come down one after the other pinch, and no stroke is being
drawn then. They leave the strokes and their history alone unless the first one erases something: then
that is one more step, and nothing else is changed but the revision and the arbiter. Whatever moves
follow change only the viewport, the revision and the contacts that the arbiter follows. -/
theorem Reachable.two_fingers_edit_iff (hs : s.Reachable) (hrest : s.AtRest) {p q : Event α}
    (hp : p.FingerDown) (hq : q.FingerDown) (hne : q.contact ≠ p.contact) :
    let t := s.run [.handle p, .handle q]
    t.live = none ∧ t.gesture? = some .pinch ∧ (t.timeline ≠ s.timeline ↔ s.Bites p) ∧
    (¬s.Bites p → t = { s with revision := t.revision, arbiter := t.arbiter }) ∧
    (s.Bites p → t = { (s.eraseAt (s.view.toCanvas p.pos)).1 with
      revision := t.revision, arbiter := t.arbiter }) ∧
    ∀ moves : List (Event α), (∀ e ∈ moves, e.phase = .move) → ∃ view revision contacts,
      t.run (moves.map .handle) =
        { t with view, revision, arbiter := { t.arbiter with contacts } } := by
  intro t
  obtain ⟨revision, arbiter, hpinch, ht⟩ := hs.two_fingers hrest hp hq hne
  change t = _ at ht
  have hradius := hs.valid.eraserRadius_pos
  have hgesture : t.gesture? = some .pinch := by rw [ht]; exact hpinch
  have hspared (h : ¬s.Bites p) : t = { s with revision := revision, arbiter := arbiter } := by
    rw [ht]
    split
    next herases => rw [eraseAt_of_not_hits hradius fun hhits => h ⟨herases.1, herases.2, hhits⟩]
    next => rfl
  have hbitten (h : s.Bites p) : t = { (s.eraseAt (s.view.toCanvas p.pos)).1 with
      revision := revision, arbiter := arbiter } := by
    rw [ht, if_pos ⟨h.1, h.2.1⟩]
  refine ⟨?_, hgesture, ⟨?_, ?_⟩, ?_, ?_, fun moves => exists_run_moves_eq hgesture⟩
  · by_cases h : s.Bites p
    · rw [hbitten h]
      exact (s.eraseAt_inkless _).live.trans hrest.live
    · rw [hspared h]
      exact hrest.live
  · intro hedits
    by_contra h
    exact hedits (by rw [hspared h])
  · intro h
    rw [hbitten h]
    exact timeline_eraseAt_ne hradius h.2.2
  · intro h
    rw [hspared h]
  · intro h
    rw [hbitten h]

/-- A dot is on the canvas and the eraser is selected. Of two fingers that pinch, the first one comes
down on the dot. -/
theorem two_fingers_edit_iff_of_eraser_on_dot :
    let c : Config Float := { Config.standard with touchMode := .drawWithFinger }
    let s := (build c).run [.beginStroke ⟨⟨0, 0⟩, 0, none⟩, .finishStroke, .setTool .eraser]
    let finger (id : ContactId) (phase : Phase) (x : Float) (time : UInt64) : Event Float :=
      ⟨id, .touch, phase, ⟨x, 0⟩, time, none⟩
    let t := s.run [.handle (finger 1 .start 0 0), .handle (finger 2 .start 100 1)]
    s.AtRest ∧ s.Bites (finger 1 .start 0 0) ∧ t.gesture? = some .pinch ∧
      t.timeline ≠ s.timeline ∧ ∃ view revision contacts,
        t.run [.handle (finger 2 .move 200 2)] =
          { t with view, revision, arbiter := { t.arbiter with contacts } } := by
  intro c s finger t
  have hc : ofConfig c = .ok (build c) :=
    ofConfig_eq_ok_iff.mpr ⟨Option.isNone_iff_eq_none.mp (by decide +kernel), rfl⟩
  have hs : s.Reachable := ⟨c, build c, _, hc, rfl⟩
  have hrest : s.AtRest :=
    ⟨by decide +kernel, List.isEmpty_iff.mp (by decide +kernel),
      Option.isNone_iff_eq_none.mp (by decide +kernel)⟩
  have hbites : s.Bites (finger 1 .start 0 0) :=
    ⟨by decide +kernel, by decide +kernel, by decide +kernel, by decide +kernel⟩
  obtain ⟨-, hpinch, hedits, -, -, hmoves⟩ := hs.two_fingers_edit_iff hrest
    (p := finger 1 .start 0 0) (q := finger 2 .start 100 1)
    ⟨rfl, rfl, by decide +kernel⟩ ⟨rfl, rfl, by decide +kernel⟩ (by decide)
  have hmove : ∀ e ∈ [finger 2 .move 200 2], e.phase = .move := by simp [finger]
  exact ⟨hrest, hbites, hpinch, hedits.mpr hbites, hmoves [finger 2 .move 200 2] hmove⟩

end Session
end InkCanvas
