import InkCanvas.Session.Action
import InkCanvas.Proofs.Session.Edit
import Mathlib.Logic.Relation

/-! # Reachable sessions

With the changes that cannot be seen (the arbiter moves, something is selected, the notices are
taken) every call of the host is a chain of elementary changes: at most one that cannot be seen,
then at most two edits (`Session.perform_steps`, `Session.changes_perform`). What a valid
configuration starts with and every elementary change keeps holds of every reachable session
(`Session.Reachable.invariant`). -/

namespace InkCanvas
namespace Session

variable {α : Type} [Scalar α]

/-- One elementary change. A width is selected only if it is finite and positive. -/
inductive Change : Session α → Session α → Prop where
  | edited {s t : Session α} (edit : Edit s t) : Change s t
  | steered (s : Session α) (arbiter : Arbiter α) : Change s { s with arbiter }
  | selected (s : Session α) (settings : Settings α)
      (width : settings.style.width = s.settings.style.width ∨
        Scalar.isPositive settings.style.width = true) : Change s { s with settings }
  | drained (s : Session α) : Change s { s with notices := [] }

/-- A chain of elementary changes. -/
abbrev Changes : Session α → Session α → Prop := Relation.ReflTransGen Change

variable {s t : Session α}

theorem Edits.changes {n : Nat} (h : Edits n s t) : Changes s t := by
  induction h with
  | nil => exact .refl
  | cons first _ ih => exact .head (.edited first) ih

/-- At most one elementary change, and one that cannot be seen. -/
inductive Unseen : Session α → Session α → Prop where
  | nothing (s : Session α) : Unseen s s
  | steered (s : Session α) (arbiter : Arbiter α) : Unseen s { s with arbiter }
  | selected (s : Session α) (settings : Settings α)
      (width : settings.style.width = s.settings.style.width ∨
        Scalar.isPositive settings.style.width = true) : Unseen s { s with settings }
  | drained (s : Session α) : Unseen s { s with notices := [] }

theorem Unseen.changes (h : Unseen s t) : Changes s t := by
  cases h with
  | nothing => exact .refl
  | steered arbiter => exact .single (.steered s arbiter)
  | selected settings width => exact .single (.selected s settings width)
  | drained => exact .single (.drained s)

/-- At most one change that cannot be seen and at most two edits after it. -/
def Steps (s u : Session α) : Prop := ∃ t n, Unseen s t ∧ n ≤ 2 ∧ Edits n t u

theorem Unseen.steps (h : Unseen s t) : Steps s t := ⟨t, 0, h, by decide, .nil t⟩

theorem Answer.steps {r : Session α × Bool} (h : Answer s r) : Steps s r.1 := by
  obtain ⟨n, few, edits⟩ := h.edits
  exact ⟨s, n, .nothing s, few, edits⟩

theorem beginStroke_steps (s : Session α) (first : Sample α) :
    Steps s (s.beginStroke first).1 := by
  cases h : Live.start first s.settings with
  | error e =>
    rw [beginStroke_of_error h]
    exact s.finishStroke_answer.steps
  | ok l => exact (beginStroke_answer (.inr ⟨l, h⟩)).steps

theorem setWidth_steps (s : Session α) (width : α) : Steps s (s.setWidth width).1 := by
  unfold setWidth
  split
  next h => exact (Unseen.selected s _ (.inr h)).steps
  next => exact (Unseen.nothing s).steps

theorem handle_steps (s : Session α) (e : Event α) : Steps s (s.handle e).1 := by
  rw [handle_eq]
  obtain ⟨n, few, edits⟩ := obey?_edits _ (s.arbiter.handle e s.view s.settings.tool).2
  exact ⟨_, n, .steered s _, few, edits⟩

theorem interrupt_steps (s : Session α) : Steps s s.interrupt.1 := by
  rw [interrupt_eq]
  obtain ⟨n, few, edits⟩ := (finishStroke_answer { s with arbiter := s.arbiter.interrupt.1 }).edits
  exact ⟨_, n, .steered s _, few, edits⟩

/-- Every call of the host is at most one change that cannot be seen, then at most two edits. -/
theorem perform_steps (s : Session α) (a : Action α) : Steps s (s.perform a).1 := by
  cases a with
  | beginStroke first => exact s.beginStroke_steps first
  | extendStroke next => exact (s.extendStroke_answer next).steps
  | finishStroke => exact s.finishStroke_answer.steps
  | cancelStroke => exact s.cancelStroke_answer.steps
  | eraseAt p => exact (s.eraseAt_answer p).steps
  | undo => exact s.undo_answer.steps
  | redo => exact s.redo_answer.steps
  | clear => exact s.clear_answer.steps
  | setTool tool => exact (Unseen.selected s (s.setTool tool).settings (.inl rfl)).steps
  | setColor color => exact (Unseen.selected s (s.setColor color).settings (.inl rfl)).steps
  | setWidth width => exact s.setWidth_steps width
  | pan delta => exact (s.pan_answer delta).steps
  | zoom factor anchor => exact (s.zoom_answer factor anchor).steps
  | resetView => exact (Answer.one (.shown s _)).steps
  | handle e => exact s.handle_steps e
  | interrupt => exact s.interrupt_steps
  | takeNotices => exact (Unseen.drained s).steps

/-- Every call of the host is a chain of elementary changes. -/
theorem changes_perform (s : Session α) (a : Action α) : Changes s (s.perform a).1 := by
  obtain ⟨t, n, unseen, -, edits⟩ := s.perform_steps a
  exact unseen.changes.trans edits.changes

@[simp] theorem run_nil (s : Session α) : s.run [] = s := rfl

@[simp] theorem run_cons (s : Session α) (a : Action α) (actions : List (Action α)) :
    s.run (a :: actions) = (s.perform a).1.run actions := rfl

theorem run_append (s : Session α) (before after : List (Action α)) :
    s.run (before ++ after) = (s.run before).run after := List.foldl_append

theorem run_append_singleton (s : Session α) (actions : List (Action α)) (a : Action α) :
    s.run (actions ++ [a]) = ((s.run actions).perform a).1 := by
  rw [run_append, run_cons, run_nil]

theorem changes_run (s : Session α) (actions : List (Action α)) : Changes s (s.run actions) := by
  induction actions generalizing s with
  | nil => exact .refl
  | cons a actions ih => exact (s.changes_perform a).trans (ih _)

/-! ## Runs from a valid configuration -/

/-- The session comes from one that a valid configuration makes, by calls of the host. -/
def Reachable (s : Session α) : Prop :=
  ∃ (c : Config α) (start : Session α) (actions : List (Action α)),
    ofConfig c = .ok start ∧ s = start.run actions

theorem ofConfig_eq_ok_iff {c : Config α} {start : Session α} :
    ofConfig c = .ok start ↔ c.fault? = none ∧ start = build c := by
  unfold ofConfig Config.validate
  cases c.fault? with
  | none => exact ⟨fun h => ⟨rfl, (Except.ok.inj h).symm⟩, fun h => congrArg Except.ok h.2.symm⟩
  | some e => exact ⟨nofun, nofun⟩

theorem Changes.invariant {P : Session α → Prop} (h : Changes s t)
    (step : ∀ {s t : Session α}, Change s t → P s → P t) (hs : P s) : P t := by
  induction h with
  | refl => exact hs
  | tail _ last ih => exact step last ih

/-- What every valid configuration starts with and every elementary change keeps holds of every
reachable session. -/
theorem Reachable.invariant {P : Session α → Prop} (h : s.Reachable)
    (init : ∀ c : Config α, c.fault? = none → P (build c))
    (step : ∀ {s t : Session α}, Change s t → P s → P t) : P s := by
  obtain ⟨c, start, actions, hc, rfl⟩ := h
  obtain ⟨hfault, rfl⟩ := ofConfig_eq_ok_iff.mp hc
  exact Changes.invariant ((build c).changes_run actions) step (init c hfault)

theorem Reachable.run (h : s.Reachable) (actions : List (Action α)) : (s.run actions).Reachable := by
  obtain ⟨c, start, before, hc, rfl⟩ := h
  exact ⟨c, start, before ++ actions, hc, (run_append start before actions).symm⟩

/-! ## Invariants -/

/-- A session keeps the configuration it was made with. -/
theorem Change.config (h : Change s t) : t.config = s.config := by
  cases h with
  | edited edit => exact edit.config
  | steered | selected | drained => rfl

theorem run_config (s : Session α) (actions : List (Action α)) :
    (s.run actions).config = s.config :=
  Changes.invariant (P := fun t => t.config = s.config) (s.changes_run actions)
    (fun h ht => h.config.trans ht) rfl

theorem run_limits {c : Config α} (hc : ofConfig c = .ok s) (actions : List (Action α)) :
    (s.run actions).limits = ⟨c.maxStrokes.toNat, c.maxHistory.toNat⟩ := by
  obtain ⟨-, rfl⟩ := ofConfig_eq_ok_iff.mp hc
  unfold limits
  rw [run_config]
  rfl

theorem Reachable.valid (h : s.Reachable) : s.config.Valid := by
  refine h.invariant (P := fun s => s.config.Valid) (fun c hc => ?_) (fun hstep hs => ?_)
  · exact Config.fault?_eq_none_iff.mp hc
  · rw [hstep.config]
    exact hs

/-- The canvas has room for a stroke. -/
theorem Reachable.items_pos (h : s.Reachable) : 0 < s.limits.items := by
  refine Nat.pos_of_ne_zero fun hzero => ?_
  exact h.valid.maxStrokes_ne (UInt64.toNat_inj.mp hzero)

theorem Reachable.depth_pos (h : s.Reachable) : 0 < s.limits.depth := by
  refine Nat.pos_of_ne_zero fun hzero => ?_
  exact h.valid.maxHistory_ne (UInt64.toNat_inj.mp hzero)

/-- The selected width is one that a stroke may have. -/
theorem Reachable.isPositive_width (h : s.Reachable) :
    Scalar.isPositive s.settings.style.width = true := by
  refine h.invariant (P := fun s => Scalar.isPositive s.settings.style.width = true)
    (fun c hc => ?_) (fun hstep hs => ?_)
  · exact (Config.fault?_eq_none_iff.mp hc).defaultWidth_pos
  · cases hstep with
    | edited edit => rw [edit.settings]; exact hs
    | selected settings width =>
      rcases width with heq | hpos
      · rw [heq]; exact hs
      · exact hpos
    | steered | drained => exact hs

end Session
end InkCanvas
