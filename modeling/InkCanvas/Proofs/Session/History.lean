import InkCanvas.Proofs.Session.Reachable
import InkCanvas.Proofs.Track

/-! # The history of a session

The committed strokes with their history form a track. `Session.commits?` tells which list of
strokes a call commits, if it commits one; such a call records the list, going back and forth moves
the cursor, and every other call leaves the track alone (`Session.run_refines_track`). -/

namespace InkCanvas

/-- A step forth takes up what a step back took back. -/
theorem Timeline.redo?_of_undo?_eq_some {σ : Type} {t u : Timeline σ} (h : t.undo? = some u) :
    u.redo? = some t := by
  obtain ⟨past, present, future⟩ := t
  cases past with
  | nil => cases h
  | cons s past =>
    obtain rfl := Option.some.inj h
    rfl

namespace Session

variable {α : Type} {s : Session α} {timeline : Timeline (List (Inked α))}

/-- The committed strokes among the earlier and later ones. -/
def track (s : Session α) : Track (List (Inked α)) := s.timeline.track

/-! ## Back and forth -/

theorem undo_of_eq_some (h : s.timeline.undo? = some timeline) :
    s.undo = ({ s with timeline }.touch, true) := by
  simp [undo, h]

theorem redo_of_eq_some (h : s.timeline.redo? = some timeline) :
    s.redo = ({ s with timeline }.touch, true) := by
  simp [redo, h]

/-- Whatever is committed, a step back brings back the strokes that were there. -/
theorem undo_commit (h : 0 < s.limits.depth) (strokes : List (Inked α)) :
    (s.commit strokes).undo.2 = true ∧ (s.commit strokes).undo.1.strokes = s.strokes := by
  obtain ⟨depth, hdepth⟩ := Nat.exists_eq_succ_of_ne_zero (Nat.ne_of_gt h)
  have hundo : (s.commit strokes).timeline.undo? =
      some ⟨Timeline.dropFarthest depth s.timeline.past, s.strokes,
        [newest s.limits.items strokes]⟩ := by
    change Timeline.undo? ⟨Timeline.dropFarthest s.limits.depth (s.strokes :: _), _, []⟩ = _
    rw [hdepth, Timeline.dropFarthest_succ_cons]
    rfl
  rw [undo_of_eq_some hundo]
  exact ⟨rfl, rfl⟩

theorem undo_track (s : Session α) : s.undo.1.track = s.track.back := by
  unfold undo track
  split
  next h => exact Timeline.track_undo? h
  next h => exact (Timeline.back_track_of_eq_none h).symm

theorem undo_report (s : Session α) : s.undo.2 = decide (0 < s.track.cursor) := by
  have hnone := Timeline.undo?_eq_none_iff (t := s.timeline)
  unfold undo
  split
  next h =>
    rw [h] at hnone
    simpa [track, Nat.pos_iff_ne_zero] using hnone
  next h =>
    have hcursor : s.timeline.cursor = 0 := hnone.mp h
    simp [track, hcursor]

theorem redo_track (s : Session α) : s.redo.1.track = s.track.forth := by
  unfold redo track
  split
  next h => exact Timeline.track_redo? h
  next h => exact (Timeline.forth_track_of_eq_none h).symm

theorem redo_report (s : Session α) :
    s.redo.2 = decide (s.track.cursor + 1 < s.track.entries.length) := by
  have hnone := Timeline.redo?_eq_none_iff (t := s.timeline)
  have hlt := s.track.cursor_lt
  simp only [track, Timeline.track_cursor, Timeline.track_entries] at hlt ⊢
  unfold redo
  split
  next h =>
    rw [h] at hnone
    have hne : s.timeline.cursor + 1 ≠ s.timeline.entries.length := by simpa using hnone
    exact (decide_eq_true (by omega)).symm
  next h =>
    have hlast := hnone.mp h
    exact (decide_eq_false (by omega)).symm

/-! ## History and notices after a commit -/

/-- The timeline after a list of strokes is committed, if one is. -/
def committing (s : Session α) : Option (List (Inked α)) → Timeline (List (Inked α))
  | some strokes => (s.timeline.commitCapped s.limits strokes).1
  | none => s.timeline

/-- The notices after a list of strokes is committed, if one is. -/
def noticing (s : Session α) : Option (List (Inked α)) → List Notice
  | some strokes => Notice.addTrimmed (excess s.limits.items strokes) s.notices
  | none => s.notices

/-- What became of history and notices is that a list of strokes was committed, if one was. -/
structure Records (s : Session α) (strokes? : Option (List (Inked α))) (t : Session α) : Prop where
  timeline : t.timeline = s.committing strokes?
  notices : t.notices = s.noticing strokes?

theorem committing_track (s : Session α) (strokes : List (Inked α)) :
    (s.committing (some strokes)).track =
      s.track.record (s.limits.depth + 1) (newest s.limits.items strokes) :=
  Timeline.track_commit s.timeline s.limits.depth _

theorem cancelStroke_records (s : Session α) : Records s none s.cancelStroke.1 := by
  unfold cancelStroke
  split <;> exact ⟨rfl, rfl⟩

variable [Scalar α]

/-! ## Which list a call commits -/

/-- The strokes with the one that is being drawn, after a last sample if there is one and the
stroke takes it. -/
def inked? (s : Session α) (last : Option (Sample α)) : Option (List (Inked α)) :=
  s.live.map fun l =>
    let l := match last with
      | some p => (l.extend p).toOption.getD l
      | none => l
    s.strokes ++ [Inked.mk (s.committed + 1) l.stroke]

/-- The strokes that an eraser leaves, if it hits any. -/
def rubbed? (s : Session α) (p : Point α) : Option (List (Inked α)) :=
  match Eraser.erase s.strokes p s.config.eraserRadius with
  | .ok remaining => remaining
  | .error _ => none

/-- The list of strokes that a command commits. -/
def commitsOn? (s : Session α) : Command α → Option (List (Inked α))
  | .begin _ => s.inked? none
  | .finish last => s.inked? last
  | .erase p => s.rubbed? p
  | .extend _ | .cancel | .restart _ | .view _ => none

/-- The list of strokes that a call commits: a stroke that is being drawn ends, an eraser hits or a
canvas that is not empty is cleared. -/
def commits? (s : Session α) : Action α → Option (List (Inked α))
  | .beginStroke _ | .finishStroke | .interrupt => s.inked? none
  | .eraseAt p => s.rubbed? p
  | .clear => if s.strokes.isEmpty then none else some []
  | .handle e => (s.arbiter.handle e s.view s.settings.tool).2.bind s.commitsOn?
  | _ => none

/-! ## What a call records -/

theorem finishStroke_records (s : Session α) : Records s (s.inked? none) s.finishStroke.1 := by
  cases h : s.live with
  | none =>
    rw [finishStroke_of_none h, inked?, h]
    exact ⟨rfl, rfl⟩
  | some l =>
    rw [finishStroke_of_some h, inked?, h]
    exact ⟨rfl, rfl⟩

theorem beginStroke_records (s : Session α) (first : Sample α) :
    Records s (s.inked? none) (s.beginStroke first).1 := by
  have hfinish := s.finishStroke_records
  cases h : Live.start first s.settings with
  | error e =>
    rw [beginStroke_of_error h]
    exact hfinish
  | ok l =>
    rw [beginStroke_of_ok h]
    exact ⟨hfinish.timeline, hfinish.notices⟩

theorem extendStroke_records (s : Session α) (next : Sample α) :
    Records s none (s.extendStroke next).1 := by
  cases hl : s.live with
  | none =>
    rw [extendStroke_of_none hl]
    exact ⟨rfl, rfl⟩
  | some l =>
    cases h : l.extend next with
    | ok m =>
      rw [extendStroke_of_ok hl h]
      exact ⟨rfl, rfl⟩
    | error e =>
      rw [extendStroke_of_error hl h]
      exact ⟨rfl, rfl⟩

theorem eraseAt_records (s : Session α) (p : Point α) :
    Records s (s.rubbed? p) (s.eraseAt p).1 := by
  unfold eraseAt rubbed?
  cases Eraser.erase s.strokes p s.config.eraserRadius with
  | error e => exact ⟨rfl, rfl⟩
  | ok remaining => cases remaining <;> exact ⟨rfl, rfl⟩

theorem finish_records (s : Session α) (last : Option (Sample α)) :
    Records s (s.inked? last) (s.obey (.finish last)).1 := by
  cases last with
  | none => exact s.finishStroke_records
  | some p =>
    change Records s _ (s.extendStroke p).1.finishStroke.1
    cases hl : s.live with
    | none =>
      rw [extendStroke_of_none hl, finishStroke_of_none hl, inked?, hl]
      exact ⟨rfl, rfl⟩
    | some l =>
      cases hp : l.extend p with
      | error e =>
        rw [extendStroke_of_error hl hp, finishStroke_of_some hl, inked?, hl]
        simp only [hp, Option.map_some]
        exact ⟨rfl, rfl⟩
      | ok m =>
        rw [extendStroke_of_ok hl hp, finishStroke_of_some (l := m) rfl, inked?, hl]
        simp only [hp, Option.map_some]
        exact ⟨rfl, rfl⟩

theorem obey_records (s : Session α) (command : Command α) :
    Records s (s.commitsOn? command) (s.obey command).1 := by
  cases command with
  | begin first => exact s.beginStroke_records first
  | extend next => exact s.extendStroke_records next
  | finish last => exact s.finish_records last
  | cancel => exact s.cancelStroke_records
  | restart first =>
    have hcancel := s.cancelStroke_records
    have hbegin := s.cancelStroke.1.beginStroke_records first
    have hnone : s.cancelStroke.1.inked? none = none := by simp [inked?, cancelStroke_live]
    rw [hnone] at hbegin
    exact ⟨hbegin.timeline.trans hcancel.timeline, hbegin.notices.trans hcancel.notices⟩
  | erase p => exact s.eraseAt_records p
  | view v =>
    simp only [obey]
    split <;> exact ⟨rfl, rfl⟩

/-- Every call but a step back or forth and the one that takes the notices records what it commits. -/
theorem perform_records (s : Session α) {a : Action α} (hundo : a ≠ .undo) (hredo : a ≠ .redo)
    (hdrain : a ≠ .takeNotices) : Records s (s.commits? a) (s.perform a).1 := by
  cases a with
  | undo | redo | takeNotices => contradiction
  | beginStroke first => exact s.beginStroke_records first
  | extendStroke next => exact s.extendStroke_records next
  | finishStroke => exact s.finishStroke_records
  | cancelStroke => exact s.cancelStroke_records
  | eraseAt p => exact s.eraseAt_records p
  | clear =>
    simp only [perform, clear, commits?]
    split <;> exact ⟨rfl, rfl⟩
  | setTool | setColor | resetView => exact ⟨rfl, rfl⟩
  | setWidth width =>
    simp only [perform, setWidth]
    split <;> exact ⟨rfl, rfl⟩
  | pan delta =>
    simp only [perform, pan]
    split <;> exact ⟨rfl, rfl⟩
  | zoom factor anchor =>
    simp only [perform, zoom]
    split <;> exact ⟨rfl, rfl⟩
  | handle e =>
    simp only [perform, handle_eq, commits?, Prod.map]
    cases (s.arbiter.handle e s.view s.settings.tool).2 with
    | none => exact ⟨rfl, rfl⟩
    | some command =>
      obtain ⟨htimeline, hnotices⟩ := obey_records
        { s with arbiter := (s.arbiter.handle e s.view s.settings.tool).1 } command
      exact ⟨htimeline, hnotices⟩
  | interrupt =>
    simp only [perform, interrupt_eq, Prod.map]
    obtain ⟨htimeline, hnotices⟩ :=
      finishStroke_records { s with arbiter := s.arbiter.interrupt.1 }
    exact ⟨htimeline, hnotices⟩

theorem perform_timeline (s : Session α) {a : Action α} (hundo : a ≠ .undo) (hredo : a ≠ .redo) :
    (s.perform a).1.timeline = s.committing (s.commits? a) := by
  by_cases hdrain : a = .takeNotices
  · subst hdrain
    rfl
  · exact (s.perform_records hundo hredo hdrain).timeline

/-! ## Reachable sessions -/

/-- No more entries than the depth allows: a commit keeps to it if the past does, and neither a step
back nor a step forth adds one. So the past alone keeps to it as well, also after steps forth. -/
theorem Reachable.length_entries_le (h : s.Reachable) :
    s.track.entries.length ≤ s.limits.depth + 1 := by
  refine h.invariant (P := fun s => s.track.entries.length ≤ s.limits.depth + 1)
    (fun c _ => Nat.le_add_left 1 _) (fun hstep hs => ?_)
  cases hstep with
  | steered | selected | drained => exact hs
  | edited edit =>
    cases edit with
    | shown | opened | grown | dropped => exact hs
    | settled | erased | cleared =>
      apply Timeline.length_entries_commit_le
      exact Nat.le_of_lt_succ (Nat.lt_of_lt_of_le (Session.track _).cursor_lt hs)
    | undone step =>
      obtain ⟨hentries, -⟩ := Timeline.of_undo?_eq_some step
      exact Nat.le_trans (Nat.le_of_eq (congrArg List.length hentries)) hs
    | redone step =>
      obtain ⟨hentries, -⟩ := Timeline.of_redo?_eq_some step
      exact Nat.le_trans (Nat.le_of_eq (congrArg List.length hentries)) hs

theorem Reachable.cursor_le (h : s.Reachable) : s.track.cursor ≤ s.limits.depth :=
  Nat.le_of_lt_succ (Nat.lt_of_lt_of_le s.track.cursor_lt h.length_entries_le)

/-- A commit keeps the nearest of the earlier lists, as many as there may be. -/
theorem Reachable.past_commit (h : s.Reachable) (strokes : List (Inked α)) :
    (s.commit strokes).timeline.past = (s.strokes :: s.timeline.past).take s.limits.depth :=
  Timeline.dropFarthest_eq_take (Nat.succ_le_succ h.cursor_le)

/-- As many steps forth as back leave everything as it was but the revision. -/
theorem run_undo_redo (s : Session α) {j : Nat} (h : j ≤ s.track.cursor) :
    s.run (List.replicate j .undo ++ List.replicate j .redo) =
      { s with revision := s.revision + .ofNat (2 * j) } := by
  induction j generalizing s with
  | zero => simp
  | succ j ih =>
    change j + 1 ≤ s.timeline.cursor at h
    cases hundo : s.timeline.undo? with
    | none =>
      have hcursor := Timeline.undo?_eq_none_iff.mp hundo
      omega
    | some timeline =>
      obtain ⟨-, hcursor⟩ := Timeline.of_undo?_eq_some hundo
      have hj : j ≤ timeline.cursor := by omega
      have hback : (s.perform .undo).1 = { s with timeline }.touch := by
        change s.undo.1 = _
        rw [undo_of_eq_some hundo]
      have hredo := Timeline.redo?_of_undo?_eq_some hundo
      have hrevision : s.revision + 1 + UInt64.ofNat (2 * j) + 1 =
          s.revision + .ofNat (2 * (j + 1)) := by
        rw [Nat.mul_succ, UInt64.ofNat_add, UInt64.add_assoc, UInt64.add_assoc, ← UInt64.add_assoc 1,
          UInt64.add_comm 1, UInt64.add_assoc]
        rfl
      rw [List.replicate_succ, List.replicate_succ', List.cons_append, run_cons,
        ← List.append_assoc, run_append, hback, ih (touch { s with timeline }) hj, run_cons, run_nil]
      change (redo _).1 = _
      rw [redo_of_eq_some hredo, ← hrevision]
      rfl

/-- Over every run from a valid configuration the history is a list with a cursor. A call that
commits a list of strokes puts it after the cursor in place of all that followed, and the oldest
entry goes if there would be more than one over the depth. A step back or forth moves the cursor,
and reports whether it could. Every other call leaves list and cursor alone. As many steps forth as
back restore the whole session, but for its revision. -/
theorem run_refines_track {c : Config α} {start : Session α} (hc : ofConfig c = .ok start)
    (actions : List (Action α)) :
    let s := start.run actions
    s.track.entries[s.track.cursor]? = some s.strokes ∧
    s.track.entries.length ≤ c.maxHistory.toNat + 1 ∧
    (∀ a strokes, s.commits? a = some strokes → (s.perform a).1.track =
      s.track.record (c.maxHistory.toNat + 1) (newest c.maxStrokes.toNat strokes)) ∧
    (∀ a, s.commits? a = none → a ≠ .undo → a ≠ .redo → (s.perform a).1.track = s.track) ∧
    (s.perform .undo).1.track = s.track.back ∧
    (s.perform .undo).2 = .changed (decide (0 < s.track.cursor)) ∧
    (s.perform .redo).1.track = s.track.forth ∧
    (s.perform .redo).2 = .changed (decide (s.track.cursor + 1 < s.track.entries.length)) ∧
    ∀ j ≤ s.track.cursor, s.run (List.replicate j .undo ++ List.replicate j .redo) =
      { s with revision := s.revision + .ofNat (2 * j) } := by
  intro s
  have hs : s.Reachable := ⟨c, start, actions, hc, rfl⟩
  have hlimits : s.limits = ⟨c.maxStrokes.toNat, c.maxHistory.toNat⟩ := by
    obtain ⟨-, rfl⟩ := ofConfig_eq_ok_iff.mp hc
    unfold limits
    rw [run_config]
    rfl
  have hlength := hs.length_entries_le
  rw [hlimits] at hlength
  refine ⟨Timeline.getElem?_entries_cursor _, hlength, fun a strokes ha => ?_,
    fun a ha hundo hredo => ?_, s.undo_track, congrArg _ s.undo_report, s.redo_track,
    congrArg _ s.redo_report, fun j => s.run_undo_redo⟩
  · have hundo : a ≠ .undo := by rintro rfl; cases ha
    have hredo : a ≠ .redo := by rintro rfl; cases ha
    have hrecord := s.committing_track strokes
    rw [hlimits] at hrecord
    rw [track, perform_timeline s hundo hredo, ha]
    exact hrecord
  · rw [track, perform_timeline s hundo hredo, ha]
    rfl

/-- Three strokes on a canvas that can undo two steps: the empty canvas is forgotten, and two steps
back and forth restore the session. -/
theorem run_refines_track_of_three_strokes :
    let c : Config Float := { Config.standard with maxHistory := 2 }
    let dot (x : Float) : List (Action Float) := [.beginStroke ⟨⟨x, 0⟩, 0, none⟩, .finishStroke]
    let s := (build c).run (dot 0 ++ dot 1 ++ dot 2)
    ofConfig c = .ok (build c) ∧ s.track.entries.length = 3 ∧ s.track.cursor = 2 ∧
      s.run [.undo, .undo, .redo, .redo] = { s with revision := s.revision + 4 } := by
  intro c dot s
  have hc : ofConfig c = .ok (build c) :=
    ofConfig_eq_ok_iff.mpr ⟨Option.isNone_iff_eq_none.mp (by decide +kernel), rfl⟩
  have hcursor : s.track.cursor = 2 := by decide +kernel
  obtain ⟨-, -, -, -, -, -, -, -, hback⟩ := run_refines_track hc (dot 0 ++ dot 1 ++ dot 2)
  exact ⟨hc, by decide +kernel, hcursor, hback 2 (Nat.le_of_eq hcursor.symm)⟩

end Session
end InkCanvas
