import InkCanvas.Proofs.Session.Commit
import Mathlib.Data.List.Nodup
import Mathlib.Data.List.Range

/-! # The order in which strokes lie

The log of a run lists the strokes as they are committed, each under its number. A session shows, and
keeps in its history, only lists that are the log with strokes left out (`Session.Layered`): whatever
is taken back, taken up again, erased, cleared or trimmed, a stroke lies above those that were
committed before it, and is still the stroke that was committed
(`Session.run_entries_sublist_commitLog`). -/

namespace InkCanvas

theorem newest_sublist {β : Type} (cap : Nat) (items : List β) : (newest cap items).Sublist items :=
  List.drop_sublist _ items

namespace Session

variable {α : Type} [Scalar α]

/-- The stroke that a call commits under the next number, if it commits one. -/
def committedInk? (s : Session α) (a : Action α) : Option (Inked α) :=
  if (s.perform a).1.committed = s.committed then none
  else (s.beforeCommit a).live.map fun l => ⟨s.committed + 1, l.stroke⟩

/-- The strokes that a run commits, first to last. -/
def commitLog (s : Session α) : List (Action α) → List (Inked α)
  | [] => []
  | a :: actions => (s.committedInk? a).toList ++ (s.perform a).1.commitLog actions

theorem commitLog_append (s : Session α) (before after : List (Action α)) :
    s.commitLog (before ++ after) = s.commitLog before ++ (s.run before).commitLog after := by
  induction before generalizing s with
  | nil => rfl
  | cons a before ih =>
    rw [List.cons_append, commitLog, commitLog, run_cons, ih, List.append_assoc]

/-- What a call commits lies on top of all others. -/
theorem getLast?_of_committedInk? {s : Session α} (hroom : 0 < s.limits.items) {a : Action α}
    {ink : Inked α} (h : s.committedInk? a = some ink) :
    (s.perform a).1.strokes.getLast? = some ink := by
  unfold committedInk? at h
  split at h
  · cases h
  next hmoved =>
    obtain ⟨l, hl, hcommits⟩ := perform_commits hroom hmoved
    rw [hl] at h
    rw [hcommits.last, ← h]
    rfl

/-- The log numbers the strokes in turn, and every list of the history is a part of it, in order. -/
structure Layered (log : List (Inked α)) (s : Session α) : Prop where
  numbers : log.map Inked.id = List.range' 1 s.committed
  sublist : ∀ strokes ∈ s.timeline.entries, strokes.Sublist log

variable {s t : Session α} {log : List (Inked α)}

omit [Scalar α] in
theorem Layered.of_entries (h : Layered log s) (hentries : t.timeline.entries = s.timeline.entries)
    (hcommitted : t.committed = s.committed) : Layered log t where
  numbers := hcommitted ▸ h.numbers
  sublist := hentries ▸ h.sublist

omit [Scalar α] in
theorem Layered.strokes (h : Layered log s) : s.strokes.Sublist log := by
  apply h.sublist
  simp [Timeline.entries, Session.strokes]

omit [Scalar α] in
theorem Layered.commit (h : Layered log s) {strokes : List (Inked α)} (hstrokes : strokes.Sublist log) :
    Layered log (s.commit strokes) where
  numbers := h.numbers
  sublist list hlist := by
    rcases Timeline.mem_entries_commit hlist with hold | rfl
    · exact h.sublist list hold
    · exact (newest_sublist _ strokes).trans hstrokes

theorem Layered.settle (h : Layered log s) (l : Live α) :
    Layered (log ++ [⟨s.committed + 1, l.stroke⟩]) (s.settle l) := by
  constructor
  · rw [List.map_append, h.numbers]
    change _ = List.range' 1 (s.committed + 1)
    rw [List.range'_1_concat, Nat.add_comm 1]
    rfl
  · intro list hlist
    rcases Timeline.mem_entries_commit hlist with hold | rfl
    · exact (h.sublist list hold).trans (List.sublist_append_left log _)
    · exact (newest_sublist _ _).trans (h.strokes.append (List.Sublist.refl _))

omit [Scalar α] in
theorem Layered.exists_append (h : Layered log t) : ∃ added, Layered (log ++ added) t := by
  refine ⟨[], ?_⟩
  rwa [List.append_nil]

theorem Edit.layered (h : Edit s t) (hs : Layered log s) : ∃ added, Layered (log ++ added) t := by
  cases h with
  | @settled l => exact ⟨_, hs.settle l⟩
  | shown | opened | grown | dropped =>
    apply Layered.exists_append
    exact hs.of_entries rfl rfl
  | erased hit =>
    obtain ⟨ids, -, -, rfl⟩ := Eraser.of_erase_eq_some hit
    exact (hs.commit (List.filter_sublist.trans hs.strokes)).exists_append
  | cleared => exact (hs.commit (List.nil_sublist log)).exists_append
  | undone step =>
    apply Layered.exists_append
    exact hs.of_entries (Timeline.of_undo?_eq_some step).1 rfl
  | redone step =>
    apply Layered.exists_append
    exact hs.of_entries (Timeline.of_redo?_eq_some step).1 rfl

theorem Changes.layered (h : Changes s t) (hs : Layered log s) :
    ∃ added, Layered (log ++ added) t := by
  induction h with
  | refl => exact hs.exists_append
  | tail _ last ih =>
    obtain ⟨added, ht⟩ := ih
    cases last with
    | edited edit =>
      obtain ⟨more, hu⟩ := edit.layered ht
      exact ⟨added ++ more, by rwa [← List.append_assoc]⟩
    | steered | selected | drained => exact ⟨added, ht.of_entries rfl rfl⟩

omit [Scalar α] in
/-- The log has no number that is still to come. -/
theorem Layered.id_le (h : Layered log s) {ink : Inked α} (hink : ink ∈ log) :
    ink.id ≤ s.committed := by
  have hid := List.mem_map_of_mem (f := Inked.id) hink
  rw [h.numbers, List.mem_range'_1] at hid
  omega

/-- A call adds to the log what it commits. -/
theorem Layered.perform (h : Layered log s) (hroom : 0 < s.limits.items) (a : Action α) :
    Layered (log ++ (s.committedInk? a).toList) (s.perform a).1 := by
  obtain ⟨added, hadded⟩ := (s.changes_perform a).layered h
  have hids := hadded.numbers
  rw [List.map_append, h.numbers] at hids
  unfold committedInk?
  split
  next hsame =>
    rw [hsame, List.append_right_eq_self, List.map_eq_nil_iff] at hids
    rwa [hids] at hadded
  next hmoved =>
    obtain ⟨l, hl, hcommits⟩ := perform_commits hroom hmoved
    rw [hcommits.committed, List.range'_1_concat, List.append_cancel_left_eq] at hids
    obtain ⟨ink, rfl, hid⟩ := List.map_eq_singleton_iff.mp hids
    -- The new stroke is on the canvas, and its number is too high for the old log.
    have hmem : Inked.mk (s.committed + 1) l.stroke ∈ log ++ [ink] :=
      hadded.strokes.subset (List.mem_of_getLast? hcommits.last)
    have hink : Inked.mk (s.committed + 1) l.stroke = ink := by
      rcases List.mem_append.mp hmem with hold | hnew
      · exact absurd (h.id_le hold) (Nat.not_succ_le_self _)
      · exact List.mem_singleton.mp hnew
    rw [hl]
    rwa [← hink] at hadded

theorem Layered.run (h : Layered log s) (hroom : 0 < s.limits.items) (actions : List (Action α)) :
    Layered (log ++ s.commitLog actions) (s.run actions) := by
  induction actions generalizing s log with
  | nil => simpa [commitLog] using h
  | cons a actions ih =>
    have hlimits : (s.perform a).1.limits = s.limits := by
      unfold limits
      rw [show (s.perform a).1.config = s.config from s.run_config [a]]
    rw [commitLog, ← List.append_assoc, run_cons]
    apply ih (h.perform hroom a)
    rwa [hlimits]

theorem layered_build (c : Config α) : Layered [] (build c) where
  numbers := rfl
  sublist := by
    intro strokes hstrokes
    obtain rfl := List.mem_singleton.mp hstrokes
    exact List.Sublist.refl _

omit [Scalar α] in
/-- In a list that is part of the log the numbers increase from back to front. -/
theorem Layered.pairwise (h : Layered log s) {strokes : List (Inked α)}
    (hstrokes : strokes.Sublist log) : (strokes.map Inked.id).Pairwise (· < ·) := by
  have hids := hstrokes.map Inked.id
  rw [h.numbers] at hids
  exact List.Pairwise.sublist hids (List.pairwise_lt_range' 1)

omit [Scalar α] in
/-- The log has one stroke for a number. -/
theorem Layered.eq_of_id_eq (h : Layered log s) {ink ink' : Inked α} (hink : ink ∈ log)
    (hink' : ink' ∈ log) (hid : ink.id = ink'.id) : ink = ink' := by
  have hnodup : (log.map Inked.id).Nodup := by
    rw [h.numbers]
    exact List.nodup_range' 1
  exact List.inj_on_of_nodup_map hnodup hink hink' hid

omit [Scalar α] in
theorem Layered.mem_of_mem_kept (h : Layered log s) {ink : Inked α} (hink : ink ∈ s.kept) :
    ink ∈ log := by
  obtain ⟨strokes, hstrokes, hmem⟩ := mem_kept_iff.mp hink
  exact (h.sublist strokes hstrokes).subset hmem

/-- Over every run from a valid configuration the log numbers the strokes that were committed in turn,
and never loses one. Every list of strokes, present, earlier or later, is the log with strokes left
out: the numbers in it increase from back to front, so no stroke is in it twice. What a call commits
lies on top of all others. A stroke that is kept at two moments of the run, whatever happened to it in
between, has the same samples, style and tool at both. -/
theorem run_entries_sublist_commitLog {c : Config α} {start : Session α} (hc : ofConfig c = .ok start)
    (actions : List (Action α)) :
    let s := start.run actions
    let log := start.commitLog actions
    log.map Inked.id = List.range' 1 s.committed ∧
    (∀ more, start.commitLog (actions ++ more) = log ++ s.commitLog more) ∧
    (∀ strokes ∈ s.timeline.entries,
      strokes.Sublist log ∧ (strokes.map Inked.id).Pairwise (· < ·)) ∧
    (∀ a ink, s.committedInk? a = some ink → (s.perform a).1.strokes.getLast? = some ink) ∧
    ∀ more, ∀ ink ∈ s.kept, ∀ ink' ∈ (s.run more).kept, ink.id = ink'.id →
      ink.stroke = ink'.stroke := by
  intro s log
  have hs : s.Reachable := ⟨c, start, actions, hc, rfl⟩
  have hstart : start.Reachable := ⟨c, start, [], hc, rfl⟩
  have hbuild := (ofConfig_eq_ok_iff.mp hc).2
  have hlayered : Layered log s := by
    have hempty : Layered [] start := hbuild ▸ layered_build c
    exact hempty.run hstart.items_pos actions
  refine ⟨hlayered.numbers, start.commitLog_append actions, ?_, ?_, ?_⟩
  · intro strokes hstrokes
    have hsub := hlayered.sublist strokes hstrokes
    exact ⟨hsub, hlayered.pairwise hsub⟩
  · intro a ink hink
    exact getLast?_of_committedInk? hs.items_pos hink
  · intro more ink hink ink' hink' hid
    have hlater := hlayered.run hs.items_pos more
    have hmem := List.mem_append_left (s.commitLog more) (hlayered.mem_of_mem_kept hink)
    rw [hlater.eq_of_id_eq hmem (hlater.mem_of_mem_kept hink') hid]

/-- Five strokes on a canvas that holds three and can undo three steps. The second and the third are
erased and brought back, the third is taken back for good, the first is trimmed, and a step back
brings the first up again. -/
theorem run_entries_sublist_commitLog_of_five_strokes :
    let c : Config Float := { Config.standard with maxStrokes := 3, maxHistory := 3 }
    let dot (x : Float) : List (Action Float) := [.beginStroke ⟨⟨x, 0⟩, 0, none⟩, .finishStroke]
    let actions : List (Action Float) := dot 0 ++ dot 50 ++ dot 55 ++
      [.eraseAt ⟨52, 0⟩, .undo, .undo] ++ dot 90 ++ dot 120 ++ [.undo]
    let s := (build c).run actions
    let log := (build c).commitLog actions
    ofConfig c = .ok (build c) ∧ log.map Inked.id = [1, 2, 3, 4, 5] ∧
      s.timeline.entries.map (·.map Inked.id) = [[1], [1, 2], [1, 2, 4], [2, 4, 5]] ∧
      s.strokes.map Inked.id = [1, 2, 4] ∧ s.strokes.Sublist log := by
  intro c dot actions s log
  have hc : ofConfig c = .ok (build c) :=
    ofConfig_eq_ok_iff.mpr ⟨Option.isNone_iff_eq_none.mp (by decide +kernel), rfl⟩
  obtain ⟨hnumbers, -, hentries, -, -⟩ := run_entries_sublist_commitLog hc actions
  have hcommitted : s.committed = 5 := by decide +kernel
  refine ⟨hc, ?_, by decide +kernel, by decide +kernel, (hentries s.strokes ?_).1⟩
  · change log.map Inked.id = List.range' 1 s.committed at hnumbers
    rw [hnumbers, hcommitted]
    rfl
  · exact List.mem_append_right _ List.mem_cons_self

end Session
end InkCanvas
