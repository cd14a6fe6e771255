import InkCanvas.Proofs.Curve
import InkCanvas.Proofs.Gesture.Inking
import InkCanvas.Proofs.Session.Kept
import InkCanvas.Proofs.Session.Steered
import InkCanvas.Proofs.WellFormed

/-! # All ink of a session is well formed

What holds of every stroke that a call opens, and goes on to hold when the stroke takes another sample,
holds of the stroke being drawn and of all that are kept, on the canvas or in its history
(`Session.AllInk.run`). So all of them are well formed, and no stroke and no eraser is ever refused
for a width or a radius (`Session.run_wellFormed`). -/

namespace InkCanvas
namespace Session

variable {α : Type} {P : Stroke α → Prop} {s t : Session α}

/-- It holds of the stroke being drawn and of all that are kept. -/
structure AllInk (P : Stroke α → Prop) (s : Session α) : Prop where
  live : ∀ l, s.live = some l → P l.stroke
  kept : ∀ ink ∈ s.kept, P ink.stroke

theorem Inkless.allInk (h : Inkless s t) (hs : s.AllInk P) : t.AllInk P := by
  constructor
  · rw [h.live]
    exact hs.live
  · intro ink hink
    exact hs.kept ink (h.kept hink)

variable [Scalar α]

/-- The sample that a call opens a stroke with, if it is accepted. -/
def opening? (s : Session α) : Action α → Option (Sample α)
  | .beginStroke first => some first
  | .handle e => (s.arbiter.handle e s.view s.settings.tool).2.bind Command.opened?
  | _ => none

/-- It holds of the stroke that the sample opens, if it is accepted. -/
def OpensWith (P : Stroke α → Prop) (s : Session α) (first : Sample α) : Prop :=
  ∀ l, Live.start first s.settings = .ok l → P l.stroke

theorem allInk_build (c : Config α) : (build c).AllInk P := by
  constructor
  · intro l hl
    cases hl
  · intro ink hink
    cases hink

namespace AllInk

/-! ## One call -/

theorem finishStroke (h : s.AllInk P) : s.finishStroke.1.AllInk P := by
  cases hl : s.live with
  | none =>
    rw [finishStroke_of_none hl]
    exact h
  | some l =>
    rw [finishStroke_of_some hl]
    constructor
    · intro m hm
      cases hm
    · intro ink hink
      rcases mem_kept_settle hink with hold | rfl
      · exact h.kept ink hold
      · exact h.live l hl

theorem beginStroke {first : Sample α} (h : s.AllInk P) (hopens : s.OpensWith P first) :
    (s.beginStroke first).1.AllInk P := by
  cases hl : Live.start first s.settings with
  | error e =>
    rw [beginStroke_of_error hl]
    exact h.finishStroke
  | ok l =>
    rw [beginStroke_of_ok hl]
    constructor
    · intro m hm
      obtain rfl := Option.some.inj hm
      exact hopens l hl
    · exact h.finishStroke.kept

omit [Scalar α] in
theorem cancelStroke (h : s.AllInk P) : s.cancelStroke.1.AllInk P := by
  cases hl : s.live with
  | none =>
    rw [cancelStroke_of_none hl]
    exact h
  | some l =>
    rw [cancelStroke_of_some hl]
    constructor
    · intro m hm
      cases hm
    · exact h.kept

section
variable (hextend : ∀ {s t : Stroke α} {next : Sample α}, s.extend next = .ok t → P s → P t)
include hextend

theorem extendStroke (h : s.AllInk P) (next : Sample α) : (s.extendStroke next).1.AllInk P := by
  cases hl : s.live with
  | none =>
    rw [extendStroke_of_none hl]
    exact h
  | some l =>
    cases hm : l.extend next with
    | error e =>
      rw [extendStroke_of_error hl hm]
      exact h
    | ok m =>
      rw [extendStroke_of_ok hl hm]
      constructor
      · intro n hn
        obtain rfl := Option.some.inj hn
        exact hextend (Live.of_extend hm).1 (h.live l hl)
      · exact h.kept

theorem obey (h : s.AllInk P) {command : Command α}
    (hopens : ∀ first, command.opened? = some first → s.OpensWith P first) :
    (s.obey command).1.AllInk P := by
  cases command with
  | begin first => exact h.beginStroke (hopens first rfl)
  | extend next => exact h.extendStroke hextend next
  | finish last =>
    cases last with
    | none => exact h.finishStroke
    | some p => exact (h.extendStroke hextend p).finishStroke
  | cancel => exact h.cancelStroke
  | restart first =>
    refine h.cancelStroke.beginStroke ?_
    rw [OpensWith, cancelStroke_settings]
    exact hopens first rfl
  | erase p => exact (s.eraseAt_inkless p).allInk h
  | view v => exact (s.view_inkless v).allInk h

theorem perform (h : s.AllInk P) {a : Action α}
    (hopens : ∀ first, s.opening? a = some first → s.OpensWith P first) :
    (s.perform a).1.AllInk P := by
  rcases a.event_or_interrupt_or_neither with ⟨e, rfl⟩ | rfl | ⟨hevent, hinterrupt⟩
  · rw [perform_handle_fst]
    cases hcommand : (s.arbiter.handle e s.view s.settings.tool).2 with
    | none => exact ⟨h.live, h.kept⟩
    | some command =>
      have hobeyed : (s.obey command).1.AllInk P := by
        refine h.obey hextend fun first hfirst => hopens first ?_
        rw [opening?, hcommand]
        exact hfirst
      exact ⟨hobeyed.live, hobeyed.kept⟩
  · rw [perform_interrupt_fst]
    exact ⟨h.finishStroke.live, h.finishStroke.kept⟩
  · cases a with
    | beginStroke first => exact h.beginStroke (hopens first rfl)
    | extendStroke next => exact h.extendStroke hextend next
    | finishStroke => exact h.finishStroke
    | cancelStroke => exact h.cancelStroke
    | _ => exact (s.perform_inkless rfl hevent hinterrupt).allInk h

theorem run (h : s.AllInk P) {actions : List (Action α)}
    (hopens : ∀ a ∈ actions, ∀ (t : Session α) (first : Sample α), t.opening? a = some first →
      t.OpensWith P first) : (s.run actions).AllInk P := by
  induction actions generalizing s with
  | nil => exact h
  | cons a actions ih =>
    obtain ⟨ha, hrest⟩ := List.forall_mem_cons.mp hopens
    exact ih (h.perform hextend (ha s)) hrest

end

end AllInk

/-! ## Reachable sessions -/

theorem allInk_wellFormed_run [LawfulUnit α] (c : Config α) (actions : List (Action α)) :
    ((build c).run actions).AllInk Stroke.WellFormed := by
  refine (allInk_build c).run (fun hext h => h.extend hext) ?_
  intro a _ t first _ l hl
  exact Stroke.wellFormed_of_start (Live.of_start hl).1

/-- What events open is drawn with the pen. -/
theorem allInk_pen_run (c : Config α) {actions : List (Action α)}
    (hevents : ∀ first, .beginStroke first ∉ actions) :
    ((build c).run actions).AllInk fun stroke => stroke.tool = .pen := by
  refine (allInk_build c).run (fun hext h => (Stroke.samples_of_extend hext).2.2.trans h) ?_
  intro a ha t first hfirst l hl
  have hstroke : l.stroke = _ := Stroke.eq_of_start (Live.of_start hl).1
  rw [hstroke]
  cases a with
  | beginStroke first => exact absurd ha (hevents first)
  | handle e => exact (Arbiter.draws_of_opened hfirst).1
  | _ => cases hfirst

theorem Reachable.beginStroke_snd (hs : s.Reachable) (first : Sample α) :
    (s.beginStroke first).2 = first.pos.isFinite := by
  rw [← Live.isOk_start hs.isPositive_width first]
  cases h : Live.start first s.settings with
  | ok l => rw [beginStroke_of_ok h]; rfl
  | error e => rw [beginStroke_of_error h]; rfl

theorem extendStroke_snd {l : Live α} (hl : s.live = some l) (next : Sample α) :
    (s.extendStroke next).2 = next.pos.isFinite := by
  cases h : l.extend next with
  | ok m =>
    rw [extendStroke_of_ok hl h]
    exact (Stroke.isFinite_of_extend (Live.of_extend h).1).symm
  | error e =>
    rw [extendStroke_of_error hl h]
    symm
    rw [Bool.eq_false_iff]
    intro hfinite
    obtain ⟨m, hm⟩ := l.exists_extend_eq_ok hfinite
    rw [h] at hm
    cases hm

/-- In every run from a valid configuration the stroke being drawn and all strokes on the canvas and in
its history are well formed, and the selected width is finite and positive. So a stroke is refused for
the position of its first sample alone, a sample for its own position, and an eraser for its position
and not for its radius. Strokes that events open are drawn with the pen, whatever is selected when. -/
theorem run_wellFormed [LawfulUnit α] {c : Config α} {start : Session α} (hc : ofConfig c = .ok start)
    (actions : List (Action α)) :
    let s := start.run actions
    s.AllInk Stroke.WellFormed ∧ Scalar.isPositive s.settings.style.width = true ∧
    (∀ first, (s.beginStroke first).2 = first.pos.isFinite) ∧
    (s.live.isSome = true → ∀ next, (s.extendStroke next).2 = next.pos.isFinite) ∧
    (∀ p, (Eraser.erase s.strokes p s.config.eraserRadius).isOk = p.isFinite) ∧
    ((∀ first, .beginStroke first ∉ actions) → s.AllInk fun stroke => stroke.tool = .pen) := by
  intro s
  have hs : s.Reachable := ⟨c, start, actions, hc, rfl⟩
  obtain ⟨-, rfl⟩ := ofConfig_eq_ok_iff.mp hc
  refine ⟨allInk_wellFormed_run c actions, hs.isPositive_width, hs.beginStroke_snd, ?_, ?_,
    allInk_pen_run c⟩
  · intro hlive next
    obtain ⟨l, hl⟩ := Option.isSome_iff_exists.mp hlive
    exact extendStroke_snd hl next
  · exact Eraser.isOk_erase hs.valid.eraserRadius_pos s.strokes

/-- A pen that presses too hard draws, with a clock that runs back, and its stroke is erased. -/
theorem run_wellFormed_of_erased_stroke :
    let c : Config Float := .standard
    let pen (phase : Phase) (x : Float) (time : UInt64) (pressure : Option Float) : Action Float :=
      .handle ⟨1, .stylus, phase, ⟨x, 0⟩, time, pressure⟩
    let s := (build c).run [pen .start 0 9 (some 7), pen .move 50 3 none, pen .lift 50 4 none,
      .setTool .eraser, pen .start 0 12 (some (0 / 0))]
    s.strokes.length = 0 ∧ s.kept.length = 1 ∧
      (∀ ink ∈ s.kept, ink.stroke.WellFormed ∧ ink.stroke.tool = .pen) ∧
      (s.beginStroke ⟨⟨0 / 0, 0⟩, 20, none⟩).2 = false := by
  intro c pen s
  have hc : ofConfig c = .ok (build c) :=
    ofConfig_eq_ok_iff.mpr ⟨Option.isNone_iff_eq_none.mp (by decide +kernel), rfl⟩
  obtain ⟨hformed, -, hbegin, -, -, hpen⟩ := run_wellFormed hc
    [pen .start 0 9 (some 7), pen .move 50 3 none, pen .lift 50 4 none, .setTool .eraser,
      pen .start 0 12 (some (0 / 0))]
  have hpen := hpen (by simp [pen])
  refine ⟨by decide +kernel, by decide +kernel, fun ink hink => ?_, ?_⟩
  · exact ⟨hformed.kept ink hink, hpen.kept ink hink⟩
  · rw [hbegin]
    decide +kernel

end Session
end InkCanvas
