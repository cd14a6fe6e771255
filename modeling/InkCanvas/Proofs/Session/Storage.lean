import InkCanvas.Proofs.Session.History
import InkCanvas.Proofs.Session.Redraw
import Mathlib.Data.Finset.Card
import Mathlib.Data.List.Chain

/-! # How much a session stores

Each list of the history has at most one stroke that the list before it did not have (`Grows`). So all
lists together hold no more strokes than one list may and one for each further list, however long the
run was (`Session.run_storage_le`). -/

namespace InkCanvas

/-- The later list has at most one item that the earlier list does not have. -/
def Grows {β : Type} (earlier later : List β) : Prop :=
  ∃ added : List β, added.length ≤ 1 ∧ later ⊆ earlier ++ added

section
variable {β : Type} {base earlier later : List β}

theorem Grows.of_subset (h : later ⊆ earlier) : Grows earlier later :=
  ⟨[], Nat.zero_le 1, List.Subset.trans h (List.subset_append_left _ _)⟩

theorem Grows.mono (h : Grows earlier later) (hbase : earlier ⊆ base) : Grows base later := by
  obtain ⟨added, hadded, hlater⟩ := h
  refine ⟨added, hadded, fun x hx => ?_⟩
  rcases List.mem_append.mp (hlater hx) with hx | hx
  · exact List.mem_append_left _ (hbase hx)
  · exact List.mem_append_right _ hx

/-- Lists that grow one after the other lie in the first one and as many more items as there are
further lists. -/
theorem exists_cover_of_isChain {lists : List (List β)} (h : (base :: lists).IsChain Grows) :
    ∃ cover : List β, cover.length ≤ base.length + lists.length ∧
      ∀ items ∈ base :: lists, items ⊆ cover := by
  induction lists generalizing base with
  | nil =>
    refine ⟨base, Nat.le_refl _, fun items hitems => ?_⟩
    rw [List.mem_singleton.mp hitems]
    exact List.Subset.refl _
  | cons items lists ih =>
    obtain ⟨⟨added, hadded, hitems⟩, hchain⟩ := List.isChain_cons_cons.mp h
    -- The first two lists are covered by one that has at most one item more than the first.
    have hnext : ((base ++ added) :: lists).IsChain Grows := by
      rw [List.isChain_cons] at hchain ⊢
      exact ⟨fun next hmem => (hchain.1 next hmem).mono hitems, hchain.2⟩
    obtain ⟨cover, hlength, hcover⟩ := ih hnext
    have hfirst : base ++ added ⊆ cover := hcover _ List.mem_cons_self
    refine ⟨cover, ?_, ?_⟩
    · rw [List.length_append] at hlength
      rw [List.length_cons]
      omega
    · intro other hother
      rcases List.mem_cons.mp hother with rfl | hother
      · exact List.Subset.trans (List.subset_append_left _ _) hfirst
      · rcases List.mem_cons.mp hother with rfl | hother
        · exact List.Subset.trans hitems hfirst
        · exact hcover _ (List.mem_cons_of_mem _ hother)

end

/-- A new present state that is related to the last one leaves the states related one to the next. -/
theorem Timeline.isChain_commit {σ : Type} {R : σ → σ → Prop} {t : Timeline σ} {x : σ}
    (h : t.entries.IsChain R) (hx : R t.present x) (depth : Nat) :
    (t.commit depth x).entries.IsChain R := by
  have hsplit : t.entries = (t.present :: t.past).reverse ++ t.future := by simp [entries]
  rw [hsplit] at h
  have hprefix := dropFarthest_isPrefix depth (t.present :: t.past)
  have hpast : (dropFarthest depth (t.present :: t.past)).reverse.IsChain R :=
    h.left_of_append.suffix (List.reverse_suffix.mpr hprefix)
  rw [entries_commit, List.isChain_append]
  refine ⟨hpast, List.isChain_singleton x, ?_⟩
  intro y hy z hz
  obtain rfl : x = z := by simpa using hz
  rw [List.getLast?_reverse] at hy
  -- The past may be empty where no step back is kept at all.
  cases hkept : dropFarthest depth (t.present :: t.past) with
  | nil => simp [hkept] at hy
  | cons nearest rest =>
    rw [hkept] at hprefix hy
    obtain rfl : nearest = t.present := (List.cons_prefix_cons.mp hprefix).1
    obtain rfl : t.present = y := by simpa using hy
    exact hx

namespace Session

variable {α : Type} [Scalar α] {s t : Session α}

/-- No list of strokes is too long, and each has at most one stroke that the list before it did not
have. -/
structure Bounded (s : Session α) : Prop where
  short : ∀ strokes ∈ s.timeline.entries, strokes.length ≤ s.limits.items
  near : s.timeline.entries.IsChain Grows

omit [Scalar α] in
theorem Bounded.of_entries (h : Bounded s) (hentries : t.timeline.entries = s.timeline.entries)
    (hconfig : t.config = s.config) : Bounded t where
  short := by
    rw [hentries, limits, hconfig]
    exact h.short
  near := by
    rw [hentries]
    exact h.near

omit [Scalar α] in
theorem Bounded.commit (h : Bounded s) {strokes : List (Inked α)} (hgrows : Grows s.strokes strokes) :
    Bounded (s.commit strokes) := by
  obtain ⟨added, hadded, hstrokes⟩ := hgrows
  constructor
  · intro list hlist
    rcases Timeline.mem_entries_commit hlist with hold | rfl
    · exact h.short list hold
    · exact length_newest_le _ _
  · have hnewest : Grows s.timeline.present (newest s.limits.items strokes) :=
      ⟨added, hadded, fun ink hink => hstrokes (mem_of_mem_newest hink)⟩
    exact Timeline.isChain_commit h.near hnewest _

theorem Edit.bounded (h : Edit s t) (hs : Bounded s) : Bounded t := by
  cases h with
  | shown | opened | grown | dropped => exact hs.of_entries rfl rfl
  | @settled l =>
    refine Bounded.commit ?_ ⟨[⟨s.committed + 1, l.stroke⟩], Nat.le_refl 1, List.Subset.refl _⟩
    exact hs.of_entries rfl rfl
  | erased hit =>
    obtain ⟨ids, -, -, rfl⟩ := Eraser.of_erase_eq_some hit
    exact hs.commit (.of_subset List.filter_sublist.subset)
  | cleared => exact hs.commit (.of_subset (List.nil_subset _))
  | undone step => exact hs.of_entries (Timeline.of_undo?_eq_some step).1 rfl
  | redone step => exact hs.of_entries (Timeline.of_redo?_eq_some step).1 rfl

theorem bounded_build (c : Config α) : Bounded (build c) where
  short := by
    intro strokes hstrokes
    obtain rfl := List.mem_singleton.mp hstrokes
    exact Nat.zero_le _
  near := List.isChain_singleton _

theorem Reachable.bounded (h : s.Reachable) : s.Bounded := by
  refine h.invariant (P := Bounded) (fun c _ => bounded_build c) ?_
  intro s t hstep hs
  cases hstep with
  | steered | selected | drained => exact hs.of_entries rfl rfl
  | edited edit => exact edit.bounded hs

/-- All kept strokes are among as many as a list and the steps of the history may hold. -/
theorem Reachable.exists_cover (h : s.Reachable) : ∃ cover : List (Inked α),
    cover.length ≤ s.limits.items + s.limits.depth ∧ s.kept ⊆ cover := by
  have hentries := h.length_entries_le
  have hshort := h.bounded.short
  have hnear := h.bounded.near
  simp only [track, Timeline.track_entries] at hentries
  cases hlists : s.timeline.entries with
  | nil => exact absurd hlists (by simp [Timeline.entries])
  | cons base lists =>
    rw [hlists] at hentries hshort hnear
    obtain ⟨cover, hlength, hcover⟩ := exists_cover_of_isChain hnear
    have hbase := hshort base List.mem_cons_self
    refine ⟨cover, ?_, ?_⟩
    · rw [List.length_cons] at hentries
      omega
    · intro ink hink
      obtain ⟨list, hlist, hmem⟩ := mem_kept_iff.mp hink
      rw [hlists] at hlist
      exact hcover list hlist hmem

/-- Over every run from a valid configuration, of any length: no list of strokes, present, earlier or
later, is longer than the configuration says, and there are no more steps to take back and up again
than it says. The strokes that these lists and the cache hold have no more different numbers than the
two limits together, and strokes of one number are one stroke. -/
theorem run_storage_le {c : Config α} {start : Session α} (hc : ofConfig c = .ok start)
    (actions : List (Action α)) :
    let s := start.run actions
    (∀ strokes ∈ s.timeline.entries, strokes.length ≤ c.maxStrokes.toNat) ∧
    s.timeline.past.length + s.timeline.future.length ≤ c.maxHistory.toNat ∧
    (s.kept.map Inked.id ++ s.cache.ids).toFinset.card ≤ c.maxStrokes.toNat + c.maxHistory.toNat ∧
    ∀ ink ∈ s.kept, ∀ ink' ∈ s.kept, ink.id = ink'.id → ink = ink' := by
  intro s
  have hs : s.Reachable := ⟨c, start, actions, hc, rfl⟩
  have hlimits : s.limits = ⟨c.maxStrokes.toNat, c.maxHistory.toNat⟩ := run_limits hc actions
  refine ⟨?_, ?_, ?_, hs.numbered.unique⟩
  · have hshort := hs.bounded.short
    rw [hlimits] at hshort
    exact hshort
  · have hentries := hs.length_entries_le
    simp only [track, Timeline.track_entries, Timeline.entries, List.length_append,
      List.length_reverse, List.length_cons, hlimits] at hentries
    omega
  · -- The cache has no numbers beside those of the kept strokes, and these lie in the cover.
    obtain ⟨cover, hlength, hcover⟩ := hs.exists_cover
    rw [hlimits] at hlength
    have hsub : (s.kept.map Inked.id ++ s.cache.ids).toFinset ⊆ (cover.map Inked.id).toFinset := by
      intro id hid
      rw [List.mem_toFinset, List.mem_append, hs.coherent.mem_ids_iff, ← List.mem_map, or_self] at hid
      obtain ⟨ink, hink, rfl⟩ := List.mem_map.mp hid
      exact List.mem_toFinset.mpr (List.mem_map_of_mem (hcover hink))
    calc (s.kept.map Inked.id ++ s.cache.ids).toFinset.card
        ≤ (cover.map Inked.id).toFinset.card := Finset.card_le_card hsub
      _ ≤ (cover.map Inked.id).length := List.toFinset_card_le _
      _ = cover.length := List.length_map _
      _ ≤ c.maxStrokes.toNat + c.maxHistory.toNat := hlength

/-- Four strokes on a canvas that holds two and can undo two steps: its lists hold all four, as many as
the limits allow. -/
theorem run_storage_le_of_four_strokes :
    let c : Config Float := { Config.standard with maxStrokes := 2, maxHistory := 2 }
    let dot (x : Float) : List (Action Float) := [.beginStroke ⟨⟨x, 0⟩, 0, none⟩, .finishStroke]
    let s := (build c).run (dot 0 ++ dot 1 ++ dot 2 ++ dot 3)
    ofConfig c = .ok (build c) ∧ s.timeline.entries.map (·.map Inked.id) = [[1, 2], [2, 3], [3, 4]] ∧
      (s.kept.map Inked.id).toFinset.card = 4 ∧
      (s.kept.map Inked.id ++ s.cache.ids).toFinset.card ≤ 4 := by
  intro c dot s
  have hc : ofConfig c = .ok (build c) :=
    ofConfig_eq_ok_iff.mpr ⟨Option.isNone_iff_eq_none.mp (by decide +kernel), rfl⟩
  obtain ⟨-, -, hcard, -⟩ := run_storage_le hc (dot 0 ++ dot 1 ++ dot 2 ++ dot 3)
  exact ⟨hc, by decide +kernel, by decide +kernel, hcard⟩

end Session
end InkCanvas
