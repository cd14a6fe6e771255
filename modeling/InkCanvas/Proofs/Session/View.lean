import InkCanvas.Proofs.Gesture.Turn
import InkCanvas.Proofs.Session.Commit
import InkCanvas.Proofs.Viewport

/-! # The viewports of a session

A session shows its viewport, and a gesture that navigates remembers the one that it started from. Both
come from the viewport of the configuration by adjustments, so what every adjustment keeps holds of
them throughout (`Session.Views.run`); in particular they stay within their bounds
(`Session.Reachable.withinBounds`). -/

namespace InkCanvas

variable {α : Type} [Scalar α]

omit [Scalar α] in
/-- The viewport that a gesture started from. -/
def Gesture.base? : Gesture α → Option (Viewport α)
  | .panning _ _ base | .pinching _ _ _ _ base => some base
  | .idle | .inking .. => none

/-- What holds of a viewport holds after every adjustment of it. -/
def Viewport.Kept (P : Viewport α → Prop) : Prop := ∀ v a, P v → P (v.adjusted a)

theorem Viewport.Kept.of_view {P : Viewport α → Prop} (hP : Kept P) {v w : Viewport α}
    (a : Adjustment α) (hv : P v) (h : (v.adjust a).toOption.map Command.view = some (.view w)) :
    P w := by
  cases hadjust : v.adjust a with
  | error e => rw [hadjust] at h; cases h
  | ok v' =>
    rw [hadjust] at h
    cases h
    rw [← adjusted_of_ok hadjust]
    exact hP v a hv

namespace Arbiter

/-- The viewport that the arbiter remembers, if it does. -/
def Views (P : Viewport α → Prop) (a : Arbiter α) : Prop :=
  ∀ base, a.gesture.base? = some base → P base

variable {P : Viewport α → Prop} {a : Arbiter α} {c : Contact α} {e : Event α} {view : Viewport α}
  {tool : Tool}

/-- The answer to an event remembers such a viewport and asks for such a viewport. -/
def Answers (P : Viewport α → Prop) (r : Arbiter α × Option (Command α)) : Prop :=
  r.1.Views P ∧ ∀ v, r.2 = some (.view v) → P v

omit [Scalar α] in
theorem Views.quiet (h : a.Views P) : Answers P (a, none) := ⟨h, nofun⟩

theorem Views.startPinch (h : a.Views P) (hview : P view) (first second : ContactId) :
    (a.startPinch first second view).Views P := by
  unfold Arbiter.startPinch
  split
  · rintro base ⟨⟩
    exact hview
  · exact h

theorem answers_startInking (c : Contact α) (e : Event α) (view : Viewport α) (tool : Tool) :
    Answers P ((a.startInking c e view tool).1, some (a.startInking c e view tool).2) := by
  refine ⟨nofun, ?_⟩
  cases tool <;> nofun

theorem Views.onPen (h : a.Views P) (c : Contact α) (e : Event α) (view : Viewport α) (tool : Tool) :
    Answers P (a.onPen c e view tool) := by
  unfold Arbiter.onPen
  split
  next => exact answers_startInking c e view tool
  next => exact answers_startInking c e view tool
  next => exact answers_startInking c e view tool
  next =>
    split
    next =>
      dsimp only
      split
      next => exact ⟨nofun, nofun⟩
      next => exact answers_startInking c e view tool
    next => exact h.quiet

theorem Views.onFinger (h : a.Views P) (hview : P view) (c : Contact α) (e : Event α) (tool : Tool) :
    Answers P (a.onFinger c e view tool) := by
  unfold Arbiter.onFinger
  split
  next =>
    split
    next => exact (h.startPinch hview _ _).quiet
    next =>
      split
      next =>
        refine Views.quiet ?_
        rintro base ⟨⟩
        exact hview
      next => exact answers_startInking c e view tool
  next => exact (h.startPinch hview _ _).quiet
  next drawing held _ _ _ =>
    split
    next =>
      refine ⟨h.startPinch hview _ _, ?_⟩
      cases held <;> nofun
    next => exact h.quiet
  next => exact h.quiet

theorem Views.onMove (h : a.Views P) (hP : Viewport.Kept P) (c : Contact α) (e : Event α)
    (view : Viewport α) : Answers P (a.onMove c e view) := by
  unfold Arbiter.onMove
  split
  next => exact h.quiet
  next =>
    split
    next => exact ⟨nofun, nofun⟩
    next => exact h.quiet
  next =>
    split
    next => exact ⟨nofun, nofun⟩
    next => exact h.quiet
  next finger origin base hg =>
    have hbase : P base := h base (by rw [hg]; rfl)
    split
    next =>
      exact ⟨h, fun v hv => hP.of_view (.pan (c.pos - origin)) hbase hv⟩
    next => exact h.quiet
  next first second mid distance base hg =>
    have hbase : P base := h base (by rw [hg]; rfl)
    split
    next =>
      refine ⟨h, ?_⟩
      cases a.contacts.get? first with
      | none => nofun
      | some p =>
        cases a.contacts.get? second with
        | none => nofun
        | some q => exact fun v hv => hP.of_view (.pinched mid (p.pos.midpoint q.pos) _) hbase hv
    next => exact h.quiet

theorem Views.onRelease (h : a.Views P) (hview : P view) (c : Contact α) (e : Event α) :
    Answers P (a.onRelease c e view) := by
  unfold Arbiter.onRelease
  split
  next => exact h.quiet
  next tool _ _ _ =>
    split
    next =>
      refine ⟨nofun, ?_⟩
      cases tool <;> nofun
    next => exact h.quiet
  next =>
    refine Views.quiet ?_
    split
    next => nofun
    next => exact h
  next =>
    split
    next =>
      dsimp only
      split
      next =>
        refine Views.quiet ?_
        rintro base ⟨⟩
        exact hview
      next => exact Views.quiet nofun
    next => exact h.quiet

theorem Views.handle (h : a.Views P) (hP : Viewport.Kept P) (hview : P view) (e : Event α)
    (tool : Tool) : Answers P (a.handle e view tool) := by
  have hr := a.handled e view tool
  generalize a.handle e view tool = r at hr
  cases hr with
  | ignored => exact h.quiet
  | @pen contacts => exact Views.onPen (a := { a with contacts }) h _ e view tool
  | @finger contacts => exact Views.onFinger (a := { a with contacts }) h hview _ e tool
  | @moved c contacts => exact Views.onMove (a := { a with contacts }) h hP c e view
  | @released c contacts => exact Views.onRelease (a := { a with contacts }) h hview c e

end Arbiter
namespace Session

variable (s : Session α)

/-! ## Calls that leave the viewport alone -/

theorem finishStroke_view : s.finishStroke.1.view = s.view := by
  cases h : s.live with
  | none => rw [finishStroke_of_none h]
  | some l => rw [finishStroke_of_some h]; rfl

theorem beginStroke_view (first : Sample α) : (s.beginStroke first).1.view = s.view := by
  obtain ⟨live, revision, heq⟩ := s.exists_beginStroke_eq first
  rw [heq]
  exact s.finishStroke_view

theorem extendStroke_view (next : Sample α) : (s.extendStroke next).1.view = s.view := by
  obtain ⟨live, revision, heq⟩ := s.exists_extendStroke_eq next
  rw [heq]

omit [Scalar α] in
theorem cancelStroke_view : s.cancelStroke.1.view = s.view := by
  cases h : s.live with
  | none => rw [cancelStroke_of_none h]
  | some l => rw [cancelStroke_of_some h]; rfl

theorem eraseAt_view (p : Point α) : (s.eraseAt p).1.view = s.view := by
  unfold eraseAt
  split <;> rfl

theorem obey_view {command : Command α} (h : ∀ v, command ≠ .view v) :
    (s.obey command).1.view = s.view := by
  cases command with
  | begin first => exact s.beginStroke_view first
  | extend next => exact s.extendStroke_view next
  | finish last =>
    cases last with
    | none => exact s.finishStroke_view
    | some p => exact (s.extendStroke p).1.finishStroke_view.trans (s.extendStroke_view p)
  | cancel => exact s.cancelStroke_view
  | restart first => exact (s.cancelStroke.1.beginStroke_view first).trans s.cancelStroke_view
  | erase p => exact s.eraseAt_view p
  | view v => exact absurd rfl (h v)

theorem obey_view_view (v : Viewport α) :
    (s.obey (.view v)).1.view = s.view ∨ (s.obey (.view v)).1.view = v := by
  simp only [obey]
  split
  next => exact .inl rfl
  next => exact .inr rfl

/-- A call of the host to navigate is an adjustment of the viewport, and no other call changes it. -/
theorem perform_view {a : Action α} (hevent : ∀ e, a ≠ .handle e) :
    (s.perform a).1.view = s.view ∨
      a.navigates = true ∧ ∃ adjustment, (s.perform a).1.view = s.view.adjusted adjustment := by
  cases a with
  | handle e => exact absurd rfl (hevent e)
  | beginStroke first => exact .inl (s.beginStroke_view first)
  | extendStroke next => exact .inl (s.extendStroke_view next)
  | finishStroke => exact .inl s.finishStroke_view
  | cancelStroke => exact .inl s.cancelStroke_view
  | eraseAt p => exact .inl (s.eraseAt_view p)
  | setTool | setColor | takeNotices => exact .inl rfl
  | undo =>
    simp only [perform, undo]
    split <;> exact .inl rfl
  | redo =>
    simp only [perform, redo]
    split <;> exact .inl rfl
  | clear =>
    simp only [perform, clear]
    split <;> exact .inl rfl
  | setWidth width =>
    simp only [perform, setWidth]
    split <;> exact .inl rfl
  | interrupt =>
    rw [perform_interrupt_fst]
    exact .inl s.finishStroke_view
  | pan delta =>
    simp only [perform, pan]
    split
    next hpan => exact .inr ⟨rfl, .pan delta, (Viewport.adjusted_of_ok (a := .pan delta) hpan).symm⟩
    next => exact .inl rfl
  | zoom factor anchor =>
    simp only [perform, zoom]
    split
    next hzoom =>
      refine .inr ⟨rfl, .zoomAt anchor factor, (Viewport.adjusted_of_ok ?_).symm⟩
      rw [Viewport.adjust, hzoom]
      rfl
    all_goals exact .inl rfl
  | resetView => exact .inr ⟨rfl, .reset, rfl⟩

/-! ## All viewports of a session -/

/-- The viewport that is shown and the one that the gesture remembers are such viewports. -/
structure Views (P : Viewport α → Prop) (s : Session α) : Prop where
  view : P s.view
  arbiter : s.arbiter.Views P

variable {s} {P : Viewport α → Prop}

theorem Views.obey? (hview : P s.view) {command : Option (Command α)}
    (hcommand : ∀ v, command = some (.view v) → P v) : P (s.obey? command).1.view := by
  cases command with
  | none => exact hview
  | some command =>
    by_cases h : ∃ v, command = .view v
    · obtain ⟨v, rfl⟩ := h
      rcases s.obey_view_view v with heq | heq
      · exact heq.symm ▸ hview
      · exact heq.symm ▸ hcommand v rfl
    · change P (s.obey command).1.view
      rwa [s.obey_view fun v hv => h ⟨v, hv⟩]

theorem Views.perform (h : Views P s) (hP : Viewport.Kept P) (a : Action α) :
    Views P (s.perform a).1 := by
  by_cases hevent : ∃ e, a = .handle e
  · obtain ⟨e, rfl⟩ := hevent
    obtain ⟨hbase, hcommand⟩ := h.arbiter.handle hP h.view e s.settings.tool
    rw [perform_handle_fst]
    exact ⟨Views.obey? h.view hcommand, hbase⟩
  · have hevent : ∀ e, a ≠ .handle e := fun e he => hevent ⟨e, he⟩
    constructor
    · rcases s.perform_view hevent with heq | ⟨-, adjustment, heq⟩
      · exact heq.symm ▸ h.view
      · exact heq.symm ▸ hP s.view adjustment h.view
    · by_cases hinterrupt : a = .interrupt
      · subst hinterrupt
        rw [perform_interrupt_fst]
        exact nofun
      · rw [s.perform_arbiter hevent hinterrupt]
        exact h.arbiter

theorem Views.run (h : Views P s) (hP : Viewport.Kept P) (actions : List (Action α)) :
    Views P (s.run actions) := by
  induction actions generalizing s with
  | nil => exact h
  | cons a actions ih => exact ih (h.perform hP a)

variable [LawfulScalar α]

/-- The viewport of a reachable session is within its bounds. -/
theorem Reachable.withinBounds (h : s.Reachable) : s.view.WithinBounds := by
  obtain ⟨c, start, actions, hc, rfl⟩ := h
  obtain ⟨hfault, rfl⟩ := ofConfig_eq_ok_iff.mp hc
  obtain ⟨hlo, hhi, hpos, hle, -⟩ := Config.fault?_eq_none_iff.mp hfault
  have hself := LawfulScalar.beq_self_of_isFinite hlo
  have hbuild : Views Viewport.WithinBounds (build c) := by
    refine ⟨Viewport.withinBounds_withBounds hlo hhi ?_ ?_, nofun⟩
    · exact LawfulScalar.lt_of_not_le hself
        (LawfulScalar.beq_self_of_isFinite LawfulScalar.isFinite_zero) hpos
    · exact LawfulScalar.le_of_not_lt (LawfulScalar.beq_self_of_isFinite hhi) hself hle
  exact (hbuild.run (fun _ a hv => hv.adjusted a) actions).view

end Session
end InkCanvas
