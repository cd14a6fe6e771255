import InkCanvas.Script
import InkCanvas.Proofs.Session.Layers
import InkCanvas.Proofs.Session.Storage

/-! # What a full canvas loses

A canvas that is full loses its oldest stroke when another is committed, and at no other time
(`Session.Reachable.trimmedBy_eq`). The host is told of every loss, once: the notices that it has taken
and the one that is pending tell of as many strokes as were trimmed, and so do the notices in the summary
of a replay (`Session.run_trims_noticed`). -/

namespace InkCanvas

/-- The number of strokes that a notice tells of. -/
def Notice.count : Notice → Nat
  | .strokesTrimmed count => count

/-- The number of strokes that some notices tell of together. -/
def Notice.total : List Notice → Nat
  | [] => 0
  | notice :: rest => notice.count + total rest

theorem Notice.total_append (earlier later : List Notice) :
    total (earlier ++ later) = total earlier + total later := by
  induction earlier with
  | nil => exact (Nat.zero_add _).symm
  | cons notice rest ih => rw [List.cons_append, total, total, ih, Nat.add_assoc]

theorem Notice.total_addTrimmed (count : Nat) (pending : List Notice) :
    total (addTrimmed count pending) = total pending + count := by
  unfold addTrimmed
  split
  next hzero => rw [hzero, Nat.add_zero]
  next =>
    split
    next before hlast =>
      rw [← List.dropLast_append_getLast? _ hlast, List.dropLast_concat, total_append, total_append,
        Nat.add_assoc]
      rfl
    next hlast =>
      rw [List.getLast?_eq_none_iff.mp hlast]
      exact (Nat.zero_add count).symm

/-- A notice that is pending takes up what another would tell. -/
theorem Notice.length_addTrimmed_le {pending : List Notice} (h : pending.length ≤ 1) (count : Nat) :
    (addTrimmed count pending).length ≤ 1 := by
  unfold addTrimmed
  split
  next => exact h
  next =>
    split
    next =>
      rw [List.length_append, List.length_dropLast, List.length_singleton]
      omega
    next => exact Nat.le_refl 1

/-- The notices that a report hands over. -/
def Report.handedOver : Report → List Notice
  | .notices list => list
  | _ => []

/-- The calls of a replay: those that the steps record, each followed by a look at the notices. -/
def Script.calls (steps : List Step) : List (Action Float) :=
  steps.flatMap fun step => [step.action, .takeNotices]

namespace Session

variable {α : Type} [Scalar α] {s t : Session α} {strokes : List (Inked α)} {a : Action α}

/-! ## What a call trims -/

/-- The strokes that a call trims: the oldest of those that it commits, as many as are too many. -/
def trimmedBy (s : Session α) (a : Action α) : List (Inked α) :=
  match s.commits? a with
  | some strokes => strokes.take (excess s.limits.items strokes)
  | none => []

/-- The strokes that a run trims, first to last. A stroke that is brought back may be trimmed again. -/
def trimLog (s : Session α) : List (Action α) → List (Inked α)
  | [] => []
  | a :: actions => s.trimmedBy a ++ (s.perform a).1.trimLog actions

/-- The notices that the host takes in a run, first to last. -/
def noticeLog (s : Session α) : List (Action α) → List Notice
  | [] => []
  | a :: actions => (s.perform a).2.handedOver ++ (s.perform a).1.noticeLog actions

theorem trimmedBy_of_none (h : s.commits? a = none) : s.trimmedBy a = [] := by
  rw [trimmedBy, h]

theorem trimmedBy_of_some (h : s.commits? a = some strokes) :
    s.trimmedBy a = strokes.take (excess s.limits.items strokes) := by
  rw [trimmedBy, h]

/-- The canvas holds what a call commits, but for what it trims. -/
theorem strokes_of_commits? (h : s.commits? a = some strokes) :
    (s.perform a).1.strokes = newest s.limits.items strokes := by
  have hundo : a ≠ .undo := by rintro rfl; cases h
  have hredo : a ≠ .redo := by rintro rfl; cases h
  rw [Session.strokes, perform_timeline s hundo hredo, h]
  rfl

theorem trimmedBy_append_strokes (h : s.commits? a = some strokes) :
    s.trimmedBy a ++ (s.perform a).1.strokes = strokes := by
  rw [trimmedBy_of_some h, strokes_of_commits? h, newest, List.take_append_drop]

/-! ## When a call trims -/

theorem inked?_eq_some (last : Option (Sample α)) (h : s.inked? last = some strokes) :
    ∃ l : Live α, strokes = s.strokes ++ [⟨s.committed + 1, l.stroke⟩] := by
  obtain ⟨l, -, rfl⟩ := Option.map_eq_some_iff.mp h
  exact ⟨_, rfl⟩

theorem rubbed?_sublist {p : Point α} (h : s.rubbed? p = some strokes) :
    strokes.Sublist s.strokes := by
  unfold rubbed? at h
  split at h
  next hit =>
    subst h
    obtain ⟨ids, -, -, rfl⟩ := Eraser.of_erase_eq_some hit
    exact List.filter_sublist
  next => cases h

/-- What a call commits is one stroke more, under the next number, or no stroke that was not there. -/
theorem commits?_cases (h : s.commits? a = some strokes) :
    (∃ l : Live α, strokes = s.strokes ++ [⟨s.committed + 1, l.stroke⟩]) ∨
      strokes.Sublist s.strokes := by
  cases a with
  | beginStroke | finishStroke | interrupt => exact .inl (inked?_eq_some none h)
  | eraseAt p => exact .inr (rubbed?_sublist h)
  | clear =>
    obtain ⟨-, hnil⟩ := Option.ite_none_left_eq_some.mp h
    obtain rfl := Option.some.inj hnil
    exact .inr (List.nil_sublist _)
  | handle e =>
    obtain ⟨command, -, hcommand⟩ := Option.bind_eq_some_iff.mp h
    cases command with
    | begin => exact .inl (inked?_eq_some none hcommand)
    | finish last => exact .inl (inked?_eq_some last hcommand)
    | erase p => exact .inr (rubbed?_sublist hcommand)
    | extend | cancel | restart | view => cases hcommand
  | _ => cases h

theorem isSome_committedInk?_iff (hroom : 0 < s.limits.items) :
    (s.committedInk? a).isSome = true ↔ (s.perform a).1.committed ≠ s.committed := by
  unfold committedInk?
  split
  next hsame => simp [hsame]
  next hmoved =>
    obtain ⟨l, hl, -⟩ := perform_commits hroom hmoved
    simp [hl, hmoved]

theorem committedInk?_of_inkless (hroom : 0 < s.limits.items) (h : Inkless s (s.perform a).1) :
    s.committedInk? a = none := by
  rw [← Option.not_isSome_iff_eq_none, isSome_committedInk?_iff hroom]
  exact fun hmoved => hmoved h.committed

/-- A call after which the canvas shows no new stroke commits none. -/
theorem Reachable.committedInk?_of_subset (hs : s.Reachable)
    (h : (s.perform a).1.strokes ⊆ s.strokes) : s.committedInk? a = none := by
  rw [← Option.not_isSome_iff_eq_none, isSome_committedInk?_iff hs.items_pos]
  intro hmoved
  obtain ⟨l, -, hcommits⟩ := perform_commits hs.items_pos hmoved
  have hold := mem_kept_of_mem_strokes (h (List.mem_of_getLast? hcommits.last))
  exact Nat.not_succ_le_self _ (hs.numbered.le _ hold)

theorem Reachable.committedInk?_of_none (hs : s.Reachable) (h : s.commits? a = none) :
    s.committedInk? a = none := by
  by_cases hundo : a = .undo
  · exact committedInk?_of_inkless hs.items_pos (hundo ▸ s.undo_inkless)
  by_cases hredo : a = .redo
  · exact committedInk?_of_inkless hs.items_pos (hredo ▸ s.redo_inkless)
  refine hs.committedInk?_of_subset ?_
  rw [Session.strokes, perform_timeline s hundo hredo, h]
  exact List.Subset.refl _

theorem Reachable.isSome_committedInk?_of_append (hs : s.Reachable) {l : Live α}
    (h : s.commits? a = some (s.strokes ++ [⟨s.committed + 1, l.stroke⟩])) :
    (s.committedInk? a).isSome = true := by
  rw [isSome_committedInk?_iff hs.items_pos]
  have hlast := getLast?_newest_append hs.items_pos s.strokes ⟨s.committed + 1, l.stroke⟩
  rw [← strokes_of_commits? h] at hlast
  have hle := (hs.run [a]).numbered.le _ (mem_kept_of_mem_strokes (List.mem_of_getLast? hlast))
  exact Nat.ne_of_gt hle

theorem Reachable.length_strokes_le (hs : s.Reachable) : s.strokes.length ≤ s.limits.items :=
  hs.bounded.short _ (by simp [Timeline.entries, Session.strokes])

/-- A call trims the oldest stroke if it commits one on a full canvas, and none otherwise. -/
theorem Reachable.trimmedBy_eq (hs : s.Reachable) (a : Action α) : s.trimmedBy a =
    if (s.committedInk? a).isSome = true ∧ s.strokes.length = s.limits.items then s.strokes.take 1
    else [] := by
  have hroom := hs.items_pos
  have hshort := hs.length_strokes_le
  cases hcommits : s.commits? a with
  | none => rw [trimmedBy_of_none hcommits, hs.committedInk?_of_none hcommits, if_neg nofun]
  | some strokes =>
    rw [trimmedBy_of_some hcommits]
    rcases commits?_cases hcommits with ⟨l, rfl⟩ | hfewer
    · rw [hs.isSome_committedInk?_of_append hcommits, excess, List.length_append,
        List.length_singleton]
      split
      next hfull =>
        have hone : s.strokes.length + 1 - s.limits.items = 1 := by omega
        rw [hone, List.take_append_of_le_length (by omega)]
      next hfree =>
        have hzero : s.strokes.length + 1 - s.limits.items = 0 := by
          have hne : s.strokes.length ≠ s.limits.items := fun hfull => hfree ⟨rfl, hfull⟩
          omega
        rw [hzero, List.take_zero]
    · have hzero : excess s.limits.items strokes = 0 :=
        Nat.sub_eq_zero_of_le (hfewer.length_le.trans hshort)
      have hnone : s.committedInk? a = none := by
        refine hs.committedInk?_of_subset ?_
        rw [strokes_of_commits? hcommits]
        exact List.Subset.trans (newest_sublist _ _).subset hfewer.subset
      rw [hzero, hnone, if_neg nofun, List.take_zero]

/-! ## The notices of a run -/

theorem handedOver_perform (s : Session α) (h : a ≠ .takeNotices) :
    (s.perform a).2.handedOver = [] := by
  cases a with
  | takeNotices => contradiction
  | _ => rfl

theorem total_noticing (s : Session α) (a : Action α) : Notice.total (s.noticing (s.commits? a)) =
    Notice.total s.notices + (s.trimmedBy a).length := by
  cases h : s.commits? a with
  | none =>
    rw [trimmedBy_of_none h]
    rfl
  | some strokes =>
    have hle : excess s.limits.items strokes ≤ strokes.length := Nat.sub_le ..
    rw [trimmedBy_of_some h, noticing, Notice.total_addTrimmed, List.length_take, Nat.min_eq_left hle]

/-- What a call hands over and what it leaves pending is what was pending and what it trims. -/
theorem total_notices_perform (s : Session α) (a : Action α) :
    Notice.total (s.perform a).2.handedOver + Notice.total (s.perform a).1.notices =
      Notice.total s.notices + (s.trimmedBy a).length := by
  by_cases hdrain : a = .takeNotices
  · subst hdrain
    rfl
  have hnotices : (s.perform a).1.notices = s.noticing (s.commits? a) := by
    by_cases hundo : a = .undo
    · subst hundo
      change s.undo.1.notices = s.notices
      unfold undo
      split <;> rfl
    by_cases hredo : a = .redo
    · subst hredo
      change s.redo.1.notices = s.notices
      unfold redo
      split <;> rfl
    exact (s.perform_records hundo hredo hdrain).notices
  rw [s.handedOver_perform hdrain, hnotices, total_noticing]
  exact Nat.zero_add _

/-- In a run as well. -/
theorem total_notices_run (s : Session α) (actions : List (Action α)) :
    Notice.total (s.noticeLog actions) + Notice.total (s.run actions).notices =
      Notice.total s.notices + (s.trimLog actions).length := by
  induction actions generalizing s with
  | nil => exact Nat.add_comm ..
  | cons a actions ih =>
    have hcall := s.total_notices_perform a
    have hrest := ih (s.perform a).1
    rw [noticeLog, trimLog, run_cons, Notice.total_append, List.length_append]
    omega

theorem Reachable.length_notices_le (hs : s.Reachable) : s.notices.length ≤ 1 := by
  refine hs.invariant (P := fun s => s.notices.length ≤ 1) (fun c _ => Nat.zero_le 1)
    (fun hstep hle => ?_)
  cases hstep with
  | steered | selected => exact hle
  | drained => exact Nat.zero_le 1
  | edited edit =>
    cases edit with
    | settled | erased | cleared => exact Notice.length_addTrimmed_le hle _
    | shown | opened | grown | dropped | undone | redone => exact hle

theorem noticeLog_append (s : Session α) (before after : List (Action α)) :
    s.noticeLog (before ++ after) = s.noticeLog before ++ (s.run before).noticeLog after := by
  induction before generalizing s with
  | nil => rfl
  | cons a before ih => rw [List.cons_append, noticeLog, noticeLog, run_cons, ih, List.append_assoc]

/-! ## Replays -/

theorem replayStep_eq (s : Session Float) (summary : Summary) (step : Step) :
    (replayStep (s, summary) step).1 = s.run [step.action, .takeNotices] ∧
      (replayStep (s, summary) step).2.notices =
        summary.notices ++ s.noticeLog [step.action, .takeNotices] := by
  have hstep : step.action ≠ .takeNotices := by cases step <;> nofun
  refine ⟨rfl, ?_⟩
  change summary.notices ++ (s.perform step.action).1.notices = summary.notices ++
    ((s.perform step.action).2.handedOver ++ ((s.perform step.action).1.notices ++ []))
  rw [s.handedOver_perform hstep, List.nil_append, List.append_nil]

theorem foldl_replayStep_eq (s : Session Float) (summary : Summary) (steps : List Step) :
    (steps.foldl replayStep (s, summary)).1 = s.run (Script.calls steps) ∧
      (steps.foldl replayStep (s, summary)).2.notices =
        summary.notices ++ s.noticeLog (Script.calls steps) := by
  induction steps generalizing s summary with
  | nil => exact ⟨rfl, (List.append_nil _).symm⟩
  | cons step steps ih =>
    obtain ⟨hsession, hnotices⟩ := replayStep_eq s summary step
    have hcalls : Script.calls (step :: steps) =
        [step.action, .takeNotices] ++ Script.calls steps := rfl
    obtain ⟨hrest, hmore⟩ := ih (replayStep (s, summary) step).1 (replayStep (s, summary) step).2
    rw [List.foldl_cons, hcalls, run_append, noticeLog_append, ← List.append_assoc, ← hsession,
      ← hnotices]
    exact ⟨hrest, hmore⟩

/-- A replay leaves no notice pending. -/
theorem notices_run_calls {s : Session Float} (h : s.notices = []) (steps : List Step) :
    (s.run (Script.calls steps)).notices = [] := by
  induction steps generalizing s with
  | nil => exact h
  | cons step steps ih => exact ih (s := s.run [step.action, .takeNotices]) rfl

/-! ## What the host is told -/

/-- Over every run from a valid configuration at most one notice is pending, and the notices that the host
has taken and the one that is pending tell of as many strokes as were trimmed. A call trims the oldest of
the strokes that it commits, if it commits the one being drawn and the canvas is full; in all other
cases, and so by erasing, by clearing and by steps back and forth, it trims none. The stroke it commits is
on the canvas then. The notices in the summary of a replay tell of as many strokes as it trimmed. -/
theorem run_trims_noticed :
    (∀ {c : Config α} {start : Session α}, ofConfig c = .ok start → ∀ actions : List (Action α),
      let s := start.run actions
      s.notices.length ≤ 1 ∧
      Notice.total (start.noticeLog actions ++ s.notices) = (start.trimLog actions).length ∧
      (∀ a strokes, s.commits? a = some strokes →
        s.trimmedBy a ++ (s.perform a).1.strokes = strokes) ∧
      (∀ a, s.trimmedBy a =
        if (s.committedInk? a).isSome = true ∧ s.strokes.length = c.maxStrokes.toNat then
          s.strokes.take 1
        else []) ∧
      (∀ p, ∀ a ∈ [Action.eraseAt p, .clear, .undo, .redo], s.trimmedBy a = []) ∧
      ∀ a ink, s.committedInk? a = some ink → (s.perform a).1.strokes.getLast? = some ink) ∧
    ∀ {c : Config Float} {start : Session Float}, ofConfig c = .ok start → ∀ steps : List Step,
      (start.replay steps).1 = start.run (Script.calls steps) ∧
      Notice.total (start.replay steps).2.notices = (start.trimLog (Script.calls steps)).length := by
  have hfresh {β : Type} [Scalar β] {c : Config β} {start : Session β} (hc : ofConfig c = .ok start) :
      start.notices = [] := by
    obtain ⟨-, rfl⟩ := ofConfig_eq_ok_iff.mp hc
    rfl
  refine ⟨fun {c start} hc actions => ?_, fun {c start} hc steps => ?_⟩
  · intro s
    have hs : s.Reachable := ⟨c, start, actions, hc, rfl⟩
    have hroom : s.limits.items = c.maxStrokes.toNat := congrArg Limits.items (run_limits hc actions)
    refine ⟨hs.length_notices_le, ?_, fun a strokes => trimmedBy_append_strokes, fun a => ?_,
      fun p a ha => ?_, fun a ink => getLast?_of_committedInk? hs.items_pos⟩
    · have hrun := start.total_notices_run actions
      rw [hfresh hc] at hrun
      rw [Notice.total_append, hrun]
      exact Nat.zero_add _
    · rw [← hroom]
      exact hs.trimmedBy_eq a
    · have hnone : s.committedInk? a = none := by
        simp only [List.mem_cons, List.not_mem_nil, or_false] at ha
        rcases ha with rfl | rfl | rfl | rfl <;>
          exact committedInk?_of_inkless hs.items_pos (s.perform_inkless rfl nofun nofun)
      rw [hs.trimmedBy_eq, hnone, if_neg nofun]
  · obtain ⟨hsession, hnotices⟩ := foldl_replayStep_eq start ⟨0, 0, start.strokes.length, []⟩ steps
    have hrun := start.total_notices_run (Script.calls steps)
    rw [hfresh hc, notices_run_calls (hfresh hc)] at hrun
    refine ⟨hsession, ?_⟩
    change Notice.total (steps.foldl replayStep _).2.notices = _
    rw [hnotices]
    exact hrun.trans (Nat.zero_add _)

/-- A canvas that holds one stroke loses the first to the second; the host takes the notice and a step
back. The third stroke then trims the first again, and the fourth the third: two losses, one notice. A
script of three strokes trims two. -/
theorem run_trims_noticed_of_small_canvas :
    let c : Config Float := { Config.standard with maxStrokes := 1 }
    let dot (x : Float) : List (Action Float) := [.beginStroke ⟨⟨x, 0⟩, 0, none⟩, .finishStroke]
    let actions : List (Action Float) :=
      dot 0 ++ dot 10 ++ [.takeNotices, .undo] ++ dot 20 ++ dot 30
    let s := (build c).run actions
    let tap (x : Float) : List Step := [.input ⟨1, .stylus, .start, ⟨x, 0⟩, 0, none⟩,
      .input ⟨1, .stylus, .lift, ⟨x, 0⟩, 1, none⟩]
    let script := tap 0 ++ tap 10 ++ tap 20
    ofConfig c = .ok (build c) ∧ ((build c).trimLog actions).map Inked.id = [1, 1, 3] ∧
      (build c).noticeLog actions = [.strokesTrimmed 1] ∧ s.notices = [.strokesTrimmed 2] ∧
      Notice.total ((build c).noticeLog actions ++ s.notices) = 3 ∧
      Notice.total ((build c).replay script).2.notices = 2 := by
  intro c dot actions s tap script
  have hc : ofConfig c = .ok (build c) :=
    ofConfig_eq_ok_iff.mpr ⟨Option.isNone_iff_eq_none.mp (by decide +kernel), rfl⟩
  obtain ⟨hrun, hreplay⟩ := @run_trims_noticed Float _
  have hids : ((build c).trimLog actions).map Inked.id = [1, 1, 3] := by decide +kernel
  have hlength : ((build c).trimLog (Script.calls script)).length = 2 := by decide +kernel
  refine ⟨hc, hids, by decide +kernel, by decide +kernel, ?_, ?_⟩
  · rw [(hrun hc actions).2.1, ← List.length_map (f := Inked.id), hids]
    rfl
  · rw [(hreplay hc script).2, hlength]

end Session
end InkCanvas
