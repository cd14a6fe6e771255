import InkCanvas.Proofs.Gesture.Turn
import InkCanvas.Proofs.Session.Kept
import InkCanvas.Proofs.Session.Steered
import Mathlib.Data.List.Induction
import Mathlib.Data.List.Infix

/-! # Strokes that outlive their gesture

A stroke is *stranded* if it is still being drawn and no gesture draws it. As long as the host
leaves strokes to the gestures, one thing alone strands a stroke: a pen that overrules the finger
that draws it, with the eraser selected (`Session.Strands`). The stroke stays stranded until
something draws again or an interruption commits it (`Session.run_stranded_iff`). -/

namespace InkCanvas

namespace Session

variable {α : Type}

/-- The contact that draws. -/
def drawer? (s : Session α) : Option ContactId := s.arbiter.gesture.drawer?

/-- A stroke is being drawn, but not by a gesture. -/
def Stranded (s : Session α) : Prop := s.liveStroke?.isSome ∧ s.gesture? ≠ some .draw

theorem isSome_liveStroke? (s : Session α) : s.liveStroke?.isSome = s.live.isSome :=
  Option.isSome_map

theorem stranded_iff {s : Session α} :
    s.Stranded ↔ s.live.isSome ∧ s.gesture? ≠ some .draw := by
  rw [Stranded, isSome_liveStroke?]

variable [Scalar α]

/-- The call passes on a pen that takes over from a finger, with the eraser selected, while the
stroke of the finger is being drawn. -/
def Strands (s : Session α) (a : Action α) : Prop :=
  s.liveStroke?.isSome ∧ ∃ e, a = .handle e ∧ s.arbiter.Overruled e s.settings.tool

/-- Nothing draws at first or after any of the calls, and none of them is an interruption. -/
def Neglects (s : Session α) (calls : List (Action α)) : Prop :=
  .interrupt ∉ calls ∧ ∀ done, done <+: calls → (s.run done).gesture? ≠ some .draw

variable {s : Session α}

theorem strands_handle_iff {e : Event α} :
    s.Strands (.handle e) ↔ s.live.isSome ∧ s.arbiter.Overruled e s.settings.tool := by
  rw [Strands, isSome_liveStroke?]
  constructor
  · rintro ⟨hlive, _, heq, h⟩
    cases heq
    exact ⟨hlive, h⟩
  · rintro ⟨hlive, h⟩
    exact ⟨hlive, e, rfl, h⟩

theorem neglects_nil_iff : s.Neglects [] ↔ s.gesture? ≠ some .draw := by
  simp [Neglects]

theorem neglects_append_singleton_iff {calls : List (Action α)} {a : Action α} :
    s.Neglects (calls ++ [a]) ↔
      s.Neglects calls ∧ a ≠ .interrupt ∧ (s.run (calls ++ [a])).gesture? ≠ some .draw := by
  constructor
  · rintro ⟨hinterrupt, hdraw⟩
    refine ⟨⟨fun h => hinterrupt (List.mem_append_left _ h), fun done h => ?_⟩, ?_, ?_⟩
    · exact hdraw done (h.trans (List.prefix_append calls [a]))
    · rintro rfl
      exact hinterrupt (List.mem_append_right _ List.mem_cons_self)
    · exact hdraw _ List.prefix_rfl
  · rintro ⟨⟨hinterrupt, hdraw⟩, ha, hlast⟩
    refine ⟨fun h => ?_, fun done h => ?_⟩
    · rcases List.mem_append.mp h with h | h
      · exact hinterrupt h
      · exact ha (List.mem_singleton.mp h).symm
    · rcases List.prefix_concat_iff.mp h with rfl | h
      · exact hlast
      · exact hdraw done h

/-! ## One call -/

theorem finish_live (s : Session α) (last : Option (Sample α)) :
    (s.obey (.finish last)).1.live = none := by
  cases last with
  | none => exact s.finishStroke_live
  | some p => exact (s.extendStroke p).1.finishStroke_live

/-- After a turn a stroke is stranded if it was before and nothing draws it now. -/
theorem Turn.stranded_iff {g g' : Gesture α} {command : Option (Command α)}
    (h : Turn g command g') (s : Session α) :
    ((s.obey? command).1.live.isSome ∧ g'.kind? ≠ some .draw) ↔
      (s.live.isSome ∧ g.kind? ≠ some .draw) ∧ g'.kind? ≠ some .draw := by
  cases h with
  | rest => exact ⟨fun h => ⟨h, h.2⟩, fun h => h.1⟩
  | steer before => exact ⟨fun h => ⟨⟨h.1, before⟩, h.2⟩, fun h => ⟨h.1.1, h.2⟩⟩
  | begin | restart | extend => exact ⟨fun h => absurd rfl h.2, fun h => absurd rfl h.2⟩
  | finish draws last =>
    have hlive : (s.obey? (some (.finish last))).1.live = none := s.finish_live last
    simp [hlive, draws]
  | cancel =>
    have hlive : (s.obey? (some .cancel)).1.live = none := s.cancelStroke_live
    simp [hlive, Gesture.kind?]
  | erase before p =>
    have hlive : (s.obey? (some (.erase p))).1.live = s.live := (s.eraseAt_inkless p).live
    rw [hlive]
    exact ⟨fun h => ⟨⟨h.1, before⟩, h.2⟩, fun h => ⟨h.1.1, h.2⟩⟩
  | view navigates v =>
    have hlive : (s.obey? (some (.view v))).1.live = s.live := (s.view_inkless v).live
    rw [hlive]
    exact ⟨fun h => ⟨h, h.2⟩, fun h => h.1⟩

/-- A turn that ends the drawing of a contact ends its stroke: what is live afterwards, if anything
is, has just been opened. -/
theorem Turn.live_of_drawer_ne {g g' : Gesture α} {command : Option (Command α)}
    (h : Turn g command g') (s : Session α) (hdraws : g.drawer?.isSome)
    (hne : g'.drawer? ≠ g.drawer?) :
    (s.obey? command).1.live = none ∨
      ∃ first, (s.obey? command).1.live = (Live.start first s.settings).toOption := by
  rw [← Gesture.kind?_eq_draw_iff] at hdraws
  cases h with
  | rest => exact absurd rfl hne
  | extend => exact absurd rfl hne
  | steer before => exact absurd hdraws before
  | erase before => exact absurd hdraws before
  | view navigates => rw [hdraws] at navigates; rcases navigates with h | h <;> cases h
  | begin _ first => exact .inr ⟨first, s.beginStroke_live first⟩
  | restart _ _ first =>
    have hlive := s.cancelStroke.1.beginStroke_live first
    rw [cancelStroke_settings] at hlive
    exact .inr ⟨first, hlive⟩
  | finish _ last => exact .inl (s.finish_live last)
  | cancel => exact .inl s.cancelStroke_live

theorem handle_live_of_overruled {e : Event α} (h : s.arbiter.Overruled e s.settings.tool) :
    (s.handle e).1.live = s.live := by
  rw [handle_eq, (Arbiter.handle_of_overruled h).1]
  exact (eraseAt_inkless _ _).live

theorem handle_gesture? (s : Session α) (e : Event α) : (s.handle e).1.gesture? =
    (s.arbiter.handle e s.view s.settings.tool).1.gesture.kind? :=
  congrArg Arbiter.kind? (s.handle_arbiter e)

theorem handle_stranded_iff (s : Session α) (e : Event α) :
    (s.handle e).1.Stranded ↔ s.Strands (.handle e) ∨
      s.Stranded ∧ (s.handle e).1.gesture? ≠ some .draw := by
  rw [stranded_iff, handle_gesture?, strands_handle_iff]
  by_cases h : s.arbiter.Overruled e s.settings.tool
  · rw [handle_live_of_overruled h, (Arbiter.handle_of_overruled h).2]
    constructor
    · exact fun hs => .inl ⟨hs.1, h⟩
    · rintro (hs | hs)
      · exact ⟨hs.1, nofun⟩
      · exact ⟨(stranded_iff.mp hs.1).1, nofun⟩
  · rw [handle_eq, Turn.stranded_iff (Arbiter.handle_turn h), stranded_iff]
    constructor
    · exact .inr
    · rintro (hs | hs)
      · exact absurd hs.2 h
      · exact hs

/-- When a contact stops drawing, or another draws in its place, its stroke is committed or dropped
unless the event strands it. -/
theorem handle_live_of_drawer_ne {e : Event α} (hdraws : s.drawer?.isSome)
    (hne : (s.handle e).1.drawer? ≠ s.drawer?) (hstrands : ¬s.Strands (.handle e)) :
    (s.handle e).1.live = none ∨
      ∃ first, (s.handle e).1.live = (Live.start first s.settings).toOption := by
  by_cases h : s.arbiter.Overruled e s.settings.tool
  · have hlive : s.live = none :=
      Option.not_isSome_iff_eq_none.mp fun hl => hstrands (strands_handle_iff.mpr ⟨hl, h⟩)
    rw [handle_live_of_overruled h]
    exact .inl hlive
  · rw [drawer?, handle_arbiter] at hne
    rw [handle_eq]
    exact Turn.live_of_drawer_ne (Arbiter.handle_turn h) _ hdraws hne

theorem not_stranded_interrupt (s : Session α) : ¬s.interrupt.1.Stranded := by
  rw [stranded_iff, interrupt_eq]
  simp [finishStroke_live]

/-- A call leaves a stroke stranded if it strands one or if one was stranded and the call neither
interrupts nor draws. -/
theorem perform_stranded_iff {a : Action α} (hcall : a.isStrokeCall = false) :
    (s.perform a).1.Stranded ↔ s.Strands a ∨
      s.Stranded ∧ a ≠ .interrupt ∧ (s.perform a).1.gesture? ≠ some .draw := by
  rcases a.event_or_interrupt_or_neither with ⟨e, rfl⟩ | rfl | ⟨hevent, hinterrupt⟩
  · rw [show (s.perform (.handle e)).1 = (s.handle e).1 from rfl, handle_stranded_iff]
    simp
  · have hnot : ¬(s.perform .interrupt).1.Stranded := s.not_stranded_interrupt
    simp [hnot, Strands]
  · have hstrands : ¬s.Strands a := fun ⟨_, e, he, _⟩ => hevent e he
    have hlive := (s.perform_inkless hcall hevent hinterrupt).live
    have hgesture : (s.perform a).1.gesture? = s.gesture? :=
      congrArg Arbiter.kind? (s.perform_arbiter hevent hinterrupt)
    rw [stranded_iff, stranded_iff, hlive, hgesture]
    simp only [hstrands, hinterrupt, false_or, ne_eq, not_false_eq_true, true_and]
    exact ⟨fun h => ⟨h, h.2⟩, fun h => h.1⟩

/-! ## Runs -/

theorem run_stranded_iff_of_not_stranded (h : ¬s.Stranded) {actions : List (Action α)}
    (hcalls : ∀ a ∈ actions, a.isStrokeCall = false) :
    (s.run actions).Stranded ↔ ∃ before a after, actions = before ++ a :: after ∧
      (s.run before).Strands a ∧ (s.run (before ++ [a])).Neglects after := by
  induction actions using List.reverseRecOn with
  | nil => simp [h]
  | append_singleton actions b ih =>
    have hb : b.isStrokeCall = false := hcalls b (by simp)
    have ih := ih fun a ha => hcalls a (by simp [ha])
    have hlast := s.run_append_singleton actions b
    rw [hlast, perform_stranded_iff hb, ih, ← hlast]
    constructor
    · rintro (hstrands | ⟨⟨before, a, after, rfl, hstrands, hneglects⟩, hinterrupt, hdraw⟩)
      · refine ⟨actions, b, [], rfl, hstrands, neglects_nil_iff.mpr ?_⟩
        rw [hlast]
        exact ((perform_stranded_iff hb).mpr (.inl hstrands)).2
      · refine ⟨before, a, after ++ [b], by simp, hstrands,
          neglects_append_singleton_iff.mpr ⟨hneglects, hinterrupt, ?_⟩⟩
        rw [← run_append]
        simpa using hdraw
    · rintro ⟨before, a, after, heq, hstrands, hneglects⟩
      cases after using List.reverseRecOn with
      | nil =>
        obtain ⟨rfl, hlist⟩ := List.append_inj' heq rfl
        obtain rfl := List.head_eq_of_cons_eq hlist
        exact .inl hstrands
      | append_singleton after c =>
        rw [← List.cons_append, ← List.append_assoc] at heq
        obtain ⟨rfl, hlist⟩ := List.append_inj' heq rfl
        obtain rfl := List.head_eq_of_cons_eq hlist
        obtain ⟨hneglects, hinterrupt, hdraw⟩ := neglects_append_singleton_iff.mp hneglects
        rw [← run_append] at hdraw
        exact .inr ⟨⟨before, a, after, rfl, hstrands, hneglects⟩, hinterrupt, by simpa using hdraw⟩

/-- Over every run from a valid configuration in which the host leaves strokes to the gestures, a
stroke is stranded at the end exactly if some call strands one and the later calls neglect it. When
a contact stops drawing in any other way, its stroke is committed or dropped. -/
theorem run_stranded_iff {c : Config α} {start : Session α} (hc : ofConfig c = .ok start)
    {actions : List (Action α)} (hcalls : ∀ a ∈ actions, a.isStrokeCall = false) :
    ((start.run actions).Stranded ↔ ∃ before a after, actions = before ++ a :: after ∧
      (start.run before).Strands a ∧ (start.run (before ++ [a])).Neglects after) ∧
    ∀ e, let s := start.run actions
      s.drawer?.isSome → (s.handle e).1.drawer? ≠ s.drawer? → ¬s.Strands (.handle e) →
        (s.handle e).1.live = none ∨
          ∃ first, (s.handle e).1.live = (Live.start first s.settings).toOption := by
  refine ⟨run_stranded_iff_of_not_stranded ?_ hcalls, fun e => handle_live_of_drawer_ne⟩
  obtain ⟨-, rfl⟩ := ofConfig_eq_ok_iff.mp hc
  exact fun h => nomatch h.1

/-- A finger draws, the eraser is selected and a pen comes down: the stroke of the finger goes on
being drawn, and so it does when everything is lifted. -/
theorem run_stranded_of_eraser_over_finger :
    let c : Config Float := { Config.standard with touchMode := .drawWithFinger }
    let finger (phase : Phase) (x : Float) : Action Float :=
      .handle ⟨1, .touch, phase, ⟨x, 10⟩, 0, none⟩
    let pen (phase : Phase) : Action Float := .handle ⟨2, .stylus, phase, ⟨500, 500⟩, 5, none⟩
    let before := [finger .start 10, finger .move 40, .setTool .eraser]
    let after := [finger .lift 40, pen .lift]
    ofConfig c = .ok (build c) ∧ ((build c).run (before ++ pen .start :: after)).Stranded := by
  intro c finger pen before after
  have hc : ofConfig c = .ok (build c) :=
    ofConfig_eq_ok_iff.mpr ⟨Option.isNone_iff_eq_none.mp (by decide +kernel), rfl⟩
  have hcalls : ∀ a ∈ before ++ pen .start :: after, a.isStrokeCall = false := by
    simp [before, after, finger, pen, Action.isStrokeCall]
  refine ⟨hc, (run_stranded_iff hc hcalls).1.mpr ⟨before, pen .start, after, rfl, ?_, ?_⟩⟩
  · exact ⟨by decide +kernel, _, rfl, by decide +kernel, rfl, rfl, by decide +kernel, 1,
      by decide +kernel, by decide +kernel⟩
  · have hrest : ∀ done ∈ after.inits,
        (((build c).run (before ++ [pen .start])).run done).gesture? ≠ some .draw := by
      decide +kernel
    exact ⟨by simp [after, finger, pen], fun done h => hrest done ((List.mem_inits _ _).mpr h)⟩

end Session
end InkCanvas
