import InkCanvas.Stroke
import Mathlib.Data.List.Induction
import Mathlib.Data.Vector.Basic

/-! # What a stroke keeps of its samples

A draft is what a stroke is made from: the settings it is opened with and the samples it accepts. The
stroke keeps the positions as they are, raises each time to the latest before it and brings each
pressure into `[0, 1]` (`Draft.Inks`, `Draft.inks_of_stroke`). -/

namespace InkCanvas

variable {α : Type} [Scalar α]

/-- The pressure that a stroke keeps: none if the device told none or one that is not finite, and
otherwise one in `[0, 1]`. -/
def Sample.keptPressure (s : Sample α) : Option α :=
  (s.pressure.filter Scalar.isFinite).map unitPressure

theorem Point.eq_of_requireFinite {p q : Point α} (h : p.requireFinite = .ok q) : q = p := by
  unfold requireFinite at h
  split at h
  · exact (Except.ok.inj h).symm
  · cases h

theorem Sample.eq_of_sanitized {s t : Sample α} (h : s.sanitized = .ok t) :
    t = { s with pressure := s.keptPressure } := by
  simp only [sanitized, bind, Except.bind] at h
  split at h
  · cases h
  next pos hpos =>
    obtain rfl := Point.eq_of_requireFinite hpos
    exact (Except.ok.inj h).symm

namespace Stroke

theorem eq_of_start {first : Sample α} {style : Style α} {tool : Tool} {s : Stroke α}
    (h : start first style tool = .ok s) :
    s = ⟨{ first with pressure := first.keptPressure }, [], style, tool⟩ := by
  unfold start at h
  cases hwidth : Scalar.isPositive style.width with
  | false =>
    rw [hwidth] at h
    cases h
  | true =>
    rw [hwidth] at h
    cases hfirst : first.sanitized with
    | error e =>
      rw [hfirst] at h
      cases h
    | ok t =>
      rw [hfirst] at h
      obtain rfl := Sample.eq_of_sanitized hfirst
      exact (Except.ok.inj h).symm

theorem samples_of_extend {s t : Stroke α} {next : Sample α} (h : s.extend next = .ok t) :
    t.samples = s.samples ++
      [{ next with pressure := next.keptPressure, time := max next.time s.last.time }] ∧
    t.style = s.style ∧ t.tool = s.tool := by
  simp only [extend, bind, Except.bind] at h
  split at h
  · cases h
  next hnext =>
    obtain rfl := Sample.eq_of_sanitized hnext
    obtain rfl := Except.ok.inj h
    exact ⟨rfl, rfl, rfl⟩

omit [Scalar α] in
theorem getLast?_samples (s : Stroke α) : s.samples.getLast? = some s.last := by
  unfold samples last
  rw [List.getLast?_cons, List.getLastD_eq_getLast?]

end Stroke

/-! ## Drafts -/

/-- What a stroke is made from. -/
structure Draft (α : Type) where
  /-- What was selected when the stroke was opened. -/
  settings : Settings α
  first : Sample α
  /-- The samples after it, in order. -/
  later : List (Sample α)

namespace Draft

omit [Scalar α] in
/-- All samples, in order. -/
def samples (d : Draft α) : List (Sample α) := d.first :: d.later

omit [Scalar α] in
/-- The draft with one sample more. -/
def extended (d : Draft α) (next : Sample α) : Draft α := { d with later := d.later ++ [next] }

omit [Scalar α] in
theorem samples_extended (d : Draft α) (next : Sample α) :
    (d.extended next).samples = d.samples ++ [next] := rfl

/-- The stroke made from a draft. -/
def stroke (d : Draft α) : Except (InkError α) (Stroke α) :=
  Stroke.ofSamples d.samples d.settings.style d.settings.tool

/-- The stroke keeps all that counts of a draft. -/
structure Inks (d : Draft α) (s : Stroke α) : Prop where
  positions : s.positions = d.samples.map Sample.pos
  times : s.samples.map Sample.time =
    (d.later.map Sample.time).scanl (fun latest t => max t latest) d.first.time
  pressures : s.samples.map Sample.pressure = d.samples.map Sample.keptPressure
  style : s.style = d.settings.style
  tool : s.tool = d.settings.tool

theorem stroke_opened (settings : Settings α) (first : Sample α) :
    (Draft.mk settings first []).stroke = Stroke.start first settings.style settings.tool := by
  cases h : Stroke.start first settings.style settings.tool <;>
    simp [stroke, samples, Stroke.ofSamples, h, pure, Except.pure, bind, Except.bind]

theorem stroke_extended (d : Draft α) (next : Sample α) :
    (d.extended next).stroke = d.stroke >>= fun s => s.extend next := by
  simp only [stroke, samples, extended, Stroke.ofSamples, List.foldlM_append, List.foldlM_cons,
    List.foldlM_nil, bind_pure, bind_assoc]

theorem Inks.of_start {settings : Settings α} {first : Sample α} {s : Stroke α}
    (h : Stroke.start first settings.style settings.tool = .ok s) : Inks ⟨settings, first, []⟩ s := by
  obtain rfl := Stroke.eq_of_start h
  exact ⟨rfl, rfl, rfl, rfl, rfl⟩

theorem Inks.extend {d : Draft α} {s t : Stroke α} {next : Sample α} (h : d.Inks s)
    (hext : s.extend next = .ok t) : (d.extended next).Inks t := by
  obtain ⟨hsamples, hstyle, htool⟩ := Stroke.samples_of_extend hext
  -- The time of the last sample is the latest so far: `scanl` ends where `foldl` does.
  have hlast : some s.last.time =
      some ((d.later.map Sample.time).foldl (fun latest t => max t latest) d.first.time) := by
    rw [← List.getLast?_scanl, ← h.times, List.getLast?_map, s.getLast?_samples, Option.map_some]
  constructor
  · have hpositions : s.samples.map Sample.pos = d.samples.map Sample.pos := h.positions
    rw [Stroke.positions, hsamples, List.map_append, hpositions, samples_extended, List.map_append]
    rfl
  · rw [hsamples, List.map_append, h.times, extended, List.map_append, List.scanl_append]
    simp [Option.some.inj hlast]
  · rw [hsamples, List.map_append, h.pressures, samples_extended, List.map_append]
    rfl
  · rw [hstyle, h.style, extended]
  · rw [htool, h.tool, extended]

/-- The stroke made from a draft keeps all that counts of it. -/
theorem inks_of_stroke {d : Draft α} {s : Stroke α} (h : d.stroke = .ok s) : d.Inks s := by
  obtain ⟨settings, first, later⟩ := d
  -- By induction on the samples from the last one: each extends the stroke of those before it.
  induction later using List.reverseRecOn generalizing s with
  | nil => exact .of_start ((stroke_opened settings first).symm.trans h)
  | append_singleton later next ih =>
    have hext := stroke_extended ⟨settings, first, later⟩ next
    rw [extended, h] at hext
    cases hdraft : (Draft.mk settings first later).stroke with
    | error e =>
      rw [hdraft] at hext
      cases hext
    | ok t =>
      rw [hdraft] at hext
      exact (ih hdraft).extend hext.symm

end Draft

end InkCanvas
