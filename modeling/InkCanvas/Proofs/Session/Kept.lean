import InkCanvas.Proofs.Session.Reachable
import InkCanvas.Proofs.Track

/-! # The strokes that a session keeps

A session keeps the strokes of the canvas and of all lists that can be taken back or up again. Only
the commit of the stroke being drawn adds one (`Session.Edit.kept`), under a number that no other has
(`Session.Reachable.numbered`). Whatever is neither a call about strokes nor an event leaves the stroke
being drawn alone and adds none (`Session.perform_inkless`). -/

namespace InkCanvas

/-- The host opens, continues, commits or drops a stroke itself. -/
def Action.isStrokeCall {α : Type} : Action α → Bool
  | .beginStroke _ | .extendStroke _ | .finishStroke | .cancelStroke => true
  | _ => false

theorem mem_of_mem_newest {β : Type} {cap : Nat} {items : List β} {x : β}
    (h : x ∈ newest cap items) : x ∈ items := List.mem_of_mem_drop h

theorem Timeline.mem_entries_commit {σ : Type} {t : Timeline σ} {depth : Nat} {x y : σ}
    (h : y ∈ (t.commit depth x).entries) : y ∈ t.entries ∨ y = x := by
  rw [entries_commit, List.mem_append, List.mem_reverse, List.mem_singleton] at h
  rcases h with h | h
  · have hmem := (dropFarthest_isPrefix _ _).subset h
    left
    rw [entries, List.mem_append, List.mem_reverse, List.mem_cons]
    rcases List.mem_cons.mp hmem with hpresent | hpast
    · exact .inr (.inl hpresent)
    · exact .inl hpast
  · exact .inr h

namespace Session

variable {α : Type}

/-- All strokes on the canvas and in its history. -/
def kept (s : Session α) : List (Inked α) := s.timeline.entries.flatten

variable {s t : Session α} {ink : Inked α}

theorem mem_kept_iff : ink ∈ s.kept ↔ ∃ strokes ∈ s.timeline.entries, ink ∈ strokes :=
  List.mem_flatten

theorem mem_kept_of_mem_strokes (h : ink ∈ s.strokes) : ink ∈ s.kept :=
  mem_kept_iff.mpr ⟨s.strokes, by simp [Timeline.entries, strokes], h⟩

/-- The canvas and the other lists hold what is kept. -/
theorem mem_kept_iff_mem_append :
    ink ∈ s.kept ↔ ink ∈ s.timeline.present ++ s.timeline.others := by
  simp only [kept, Timeline.entries, Timeline.others, List.flatten_append, List.flatten_cons,
    List.mem_append, List.mem_flatten, List.mem_reverse]
  exact or_left_comm

theorem kept_eq_of_entries (h : t.timeline.entries = s.timeline.entries) : t.kept = s.kept :=
  congrArg List.flatten h

theorem kept_subset_of_entries (h : t.timeline.entries = s.timeline.entries) : t.kept ⊆ s.kept := by
  rw [kept_eq_of_entries h]
  exact List.Subset.refl _

theorem mem_kept_commit {strokes : List (Inked α)} (h : ink ∈ (s.commit strokes).kept) :
    ink ∈ s.kept ∨ ink ∈ strokes := by
  obtain ⟨list, hlist, hink⟩ := mem_kept_iff.mp h
  rcases Timeline.mem_entries_commit hlist with hold | rfl
  · exact .inl (mem_kept_iff.mpr ⟨list, hold, hink⟩)
  · exact .inr (mem_of_mem_newest hink)

theorem kept_commit_subset {strokes : List (Inked α)} (h : strokes ⊆ s.strokes) :
    (s.commit strokes).kept ⊆ s.kept := by
  intro ink hink
  rcases mem_kept_commit hink with hold | hnew
  · exact hold
  · exact mem_kept_of_mem_strokes (h hnew)

variable [Scalar α]

theorem mem_kept_settle {l : Live α} (h : ink ∈ (s.settle l).kept) :
    ink ∈ s.kept ∨ ink = ⟨s.committed + 1, l.stroke⟩ := by
  rcases mem_kept_commit h with hold | hnew
  · exact .inl hold
  · rcases List.mem_append.mp hnew with hstrokes | hink
    · exact .inl (mem_kept_of_mem_strokes hstrokes)
    · exact .inr (List.mem_singleton.mp hink)

theorem kept_erased_subset {p : Point α} {remaining : List (Inked α)}
    (h : Eraser.erase s.strokes p s.config.eraserRadius = .ok (some remaining)) :
    (s.commit remaining).kept ⊆ s.kept := by
  obtain ⟨ids, -, -, rfl⟩ := Eraser.of_erase_eq_some h
  exact kept_commit_subset List.filter_sublist.subset

/-- Only the commit of the stroke being drawn adds to what is kept, or takes a number. -/
theorem Edit.kept (h : Edit s t) : (t.kept ⊆ s.kept ∧ t.committed = s.committed) ∨
    ∃ l, s.live = some l ∧ t = s.settle l := by
  cases h with
  | shown | opened | grown | dropped => exact .inl ⟨List.Subset.refl _, rfl⟩
  | @settled l live => exact .inr ⟨l, live, rfl⟩
  | erased hit => exact .inl ⟨kept_erased_subset hit, rfl⟩
  | cleared => exact .inl ⟨kept_commit_subset (List.nil_subset _), rfl⟩
  | undone step =>
    exact .inl ⟨kept_subset_of_entries (Timeline.of_undo?_eq_some step).1, rfl⟩
  | redone step =>
    exact .inl ⟨kept_subset_of_entries (Timeline.of_redo?_eq_some step).1, rfl⟩

/-! ## Numbers -/

/-- The kept strokes have different numbers, and the next number is new. -/
structure Numbered (s : Session α) : Prop where
  le : ∀ ink ∈ s.kept, ink.id ≤ s.committed
  unique : ∀ ink ∈ s.kept, ∀ ink' ∈ s.kept, ink.id = ink'.id → ink = ink'

omit [Scalar α] in
theorem Numbered.of_subset (h : Numbered s) (hkept : t.kept ⊆ s.kept)
    (hcommitted : t.committed = s.committed) : Numbered t where
  le ink hink := hcommitted ▸ h.le ink (hkept hink)
  unique ink hink ink' hink' := h.unique ink (hkept hink) ink' (hkept hink')

theorem Numbered.settle (h : Numbered s) (l : Live α) : Numbered (s.settle l) := by
  have hlt : ∀ ink ∈ s.kept, ink.id < s.committed + 1 := by
    intro ink hink
    exact Nat.lt_succ_of_le (h.le ink hink)
  constructor
  · intro ink hink
    change ink.id ≤ s.committed + 1
    rcases mem_kept_settle hink with hold | rfl
    · exact Nat.le_of_lt (hlt ink hold)
    · exact Nat.le_refl _
  · intro ink hink ink' hink' heq
    rcases mem_kept_settle hink with hold | rfl
    · rcases mem_kept_settle hink' with hold' | rfl
      · exact h.unique ink hold ink' hold' heq
      · exact absurd heq (Nat.ne_of_lt (hlt ink hold))
    · rcases mem_kept_settle hink' with hold' | rfl
      · exact absurd heq.symm (Nat.ne_of_lt (hlt ink' hold'))
      · rfl

theorem numbered_build (c : Config α) : Numbered (build c) := by
  have hnone : (build c).kept = [] := rfl
  constructor
  · intro ink hink
    rw [hnone] at hink
    cases hink
  · intro ink hink
    rw [hnone] at hink
    cases hink

theorem Change.numbered (h : Change s t) (hs : Numbered s) : Numbered t := by
  cases h with
  | steered | selected | drained => exact hs.of_subset (List.Subset.refl _) rfl
  | edited edit =>
    rcases edit.kept with ⟨hkept, hcommitted⟩ | ⟨l, -, rfl⟩
    · exact hs.of_subset hkept hcommitted
    · exact hs.settle l

theorem Reachable.numbered (h : s.Reachable) : s.Numbered :=
  h.invariant (fun c _ => numbered_build c) Change.numbered

/-! ## What adds no ink -/

/-- The same stroke is being drawn, and nothing new is kept. -/
structure Inkless (s t : Session α) : Prop where
  live : t.live = s.live
  committed : t.committed = s.committed
  kept : t.kept ⊆ s.kept

omit [Scalar α] in
theorem Inkless.refl (s : Session α) : Inkless s s := ⟨rfl, rfl, List.Subset.refl _⟩

theorem eraseAt_inkless (s : Session α) (p : Point α) : Inkless s (s.eraseAt p).1 := by
  unfold eraseAt
  split
  next hit => exact ⟨rfl, rfl, kept_erased_subset hit⟩
  all_goals exact .refl s

omit [Scalar α] in
theorem undo_inkless (s : Session α) : Inkless s s.undo.1 := by
  unfold undo
  split
  next h => exact ⟨rfl, rfl, kept_subset_of_entries (Timeline.of_undo?_eq_some h).1⟩
  next => exact .refl s

omit [Scalar α] in
theorem redo_inkless (s : Session α) : Inkless s s.redo.1 := by
  unfold redo
  split
  next h => exact ⟨rfl, rfl, kept_subset_of_entries (Timeline.of_redo?_eq_some h).1⟩
  next => exact .refl s

omit [Scalar α] in
theorem clear_inkless (s : Session α) : Inkless s s.clear.1 := by
  unfold clear
  split
  next => exact .refl s
  next => exact ⟨rfl, rfl, kept_commit_subset (List.nil_subset _)⟩

theorem view_inkless (s : Session α) (v : Viewport α) : Inkless s (s.obey (.view v)).1 := by
  simp only [obey]
  split <;> exact ⟨rfl, rfl, List.Subset.refl _⟩

/-- A call that is neither about strokes nor an event nor an interruption adds no ink. -/
theorem perform_inkless (s : Session α) {a : Action α} (hcall : a.isStrokeCall = false)
    (hevent : ∀ e, a ≠ .handle e) (hinterrupt : a ≠ .interrupt) :
    Inkless s (s.perform a).1 := by
  cases a with
  | beginStroke | extendStroke | finishStroke | cancelStroke => cases hcall
  | handle e => exact absurd rfl (hevent e)
  | interrupt => exact absurd rfl hinterrupt
  | setTool | setColor | resetView | takeNotices => exact ⟨rfl, rfl, List.Subset.refl _⟩
  | eraseAt p => exact s.eraseAt_inkless p
  | undo => exact s.undo_inkless
  | redo => exact s.redo_inkless
  | clear => exact s.clear_inkless
  | setWidth width =>
    simp only [perform, setWidth]
    split <;> exact ⟨rfl, rfl, List.Subset.refl _⟩
  | pan delta =>
    simp only [perform, pan]
    split <;> exact ⟨rfl, rfl, List.Subset.refl _⟩
  | zoom factor anchor =>
    simp only [perform, zoom]
    split <;> exact ⟨rfl, rfl, List.Subset.refl _⟩

end Session
end InkCanvas
