import InkCanvas.Proofs.Curve
import InkCanvas.Proofs.Session.Commit

/-! # Kept curves show what the strokes are

A frame is painted from curves that were built earlier: those in the cache and the one that grows with
the stroke being drawn. In every reachable session the cache has exactly the curves of the kept
strokes (`Session.Coherent`), so the frame is the one that is built from the strokes alone
(`Session.redrawn`), and a stroke looks the same before and after it is committed
(`Session.run_frame_eq_redrawn`). -/

namespace InkCanvas
namespace Session

variable {α : Type} [Scalar α]

/-- The frame built from the strokes alone. -/
def redrawn (s : Session α) : Frame α where
  strokes := s.strokes.map fun ink => Mark.resolve (some ink.id) ink.stroke.path ink.stroke s.view
  live := s.liveStroke?.map fun stroke => Mark.resolve none stroke.path stroke s.view
  view := s.view
  revision := s.revision

/-- Every kept stroke has its curve in the cache, no other curve is there, and the curve of the stroke
being drawn has grown with it. -/
structure Coherent (s : Session α) : Prop where
  nodup : s.cache.ids.Nodup
  exists_of_mem : ∀ id ∈ s.cache.ids, ∃ ink ∈ s.kept, ink.id = id
  curve : ∀ ink ∈ s.kept, s.cache.get? ink.id = some ink.stroke.path
  traced : ∀ l, s.live = some l → l.Traced

variable {s t : Session α}

theorem Coherent.mem_ids_iff (h : Coherent s) {id : Nat} :
    id ∈ s.cache.ids ↔ ∃ ink ∈ s.kept, ink.id = id := by
  constructor
  · exact h.exists_of_mem id
  · rintro ⟨ink, hink, rfl⟩
    rw [PathCache.mem_ids_iff, h.curve ink hink]
    rfl

theorem Coherent.frame (h : Coherent s) : s.frame = s.redrawn := by
  have hstrokes : s.frame.strokes = s.redrawn.strokes := by
    refine List.map_congr_left ?_
    intro ink hink
    rw [h.curve ink (mem_kept_of_mem_strokes hink), Option.getD_some]
  have hlive : s.frame.live = s.redrawn.live := by
    change s.live.map _ = (s.live.map Live.stroke).map _
    cases hl : s.live with
    | none => rfl
    | some l =>
      simp only [Option.map_some]
      rw [(h.traced l hl).path]
  calc s.frame = ⟨s.frame.strokes, s.frame.live, s.view, s.revision⟩ := rfl
    _ = ⟨s.redrawn.strokes, s.redrawn.live, s.view, s.revision⟩ := by rw [hstrokes, hlive]
    _ = s.redrawn := rfl

/-! ## Coherence over a run -/

theorem Coherent.of_eq (h : Coherent s) (hkept : t.kept = s.kept) (hcache : t.cache = s.cache)
    (htraced : ∀ l, t.live = some l → l.Traced) : Coherent t where
  nodup := hcache ▸ h.nodup
  exists_of_mem := by rw [hkept, hcache]; exact h.exists_of_mem
  curve := by rw [hkept, hcache]; exact h.curve
  traced := htraced

/-- A commit keeps the curves of what is kept and no others. -/
theorem coherent_commit {strokes : List (Inked α)} (hnodup : s.cache.ids.Nodup)
    (hcurve : ∀ ink ∈ (s.commit strokes).kept, s.cache.get? ink.id = some ink.stroke.path)
    (htraced : ∀ l, s.live = some l → l.Traced) : Coherent (s.commit strokes) := by
  generalize ht : s.commit strokes = t at hcurve
  have hcache : t.cache = s.cache.retain ((t.timeline.present ++ t.timeline.others).map Inked.id) :=
    ht ▸ rfl
  have hlive : t.live = s.live := ht ▸ rfl
  constructor
  · rw [hcache]
    exact PathCache.nodup_ids_retain hnodup _
  · intro id hid
    rw [hcache, PathCache.mem_ids_retain] at hid
    obtain ⟨ink, hink, rfl⟩ := List.mem_map.mp hid.2
    exact ⟨ink, mem_kept_iff_mem_append.mpr hink, rfl⟩
  · intro ink hink
    have hmem := List.mem_map_of_mem (f := Inked.id) (mem_kept_iff_mem_append.mp hink)
    rw [hcache, PathCache.get?_retain, if_pos hmem]
    exact hcurve ink hink
  · rw [hlive]
    exact htraced

theorem Coherent.settle (h : Coherent s) (hn : Numbered s) (l : Live α) :
    Coherent (s.settle l) := by
  -- No curve has the next number yet, so the stroke gets its own and not one that is there.
  have hnew : s.cache.get? (s.committed + 1) = none := by
    rw [← Option.not_isSome_iff_eq_none, ← PathCache.mem_ids_iff]
    intro hmem
    obtain ⟨ink, hink, hid⟩ := h.exists_of_mem _ hmem
    have hle := hn.le ink hink
    omega
  refine coherent_commit (PathCache.nodup_ids_getOrBuild h.nodup _ _) ?_ nofun
  intro ink hink
  change (s.cache.getOrBuild (s.committed + 1) l.stroke).2.get? ink.id = _
  rw [PathCache.get?_getOrBuild hnew]
  rcases mem_kept_settle hink with hold | rfl
  · have hle := hn.le ink hold
    rw [if_neg (by omega)]
    exact h.curve ink hold
  · rw [if_pos rfl]

theorem Coherent.commit_subset (h : Coherent s) {strokes : List (Inked α)}
    (hkept : (s.commit strokes).kept ⊆ s.kept) : Coherent (s.commit strokes) :=
  coherent_commit h.nodup (fun ink hink => h.curve ink (hkept hink)) h.traced

theorem Edit.coherent (h : Edit s t) (hs : Coherent s) (hn : Numbered s) : Coherent t := by
  cases h with
  | shown => exact hs.of_eq rfl rfl hs.traced
  | opened idle start =>
    refine hs.of_eq rfl rfl ?_
    rintro m ⟨⟩
    exact Live.traced_of_start start
  | @grown _ l _ live extend =>
    refine hs.of_eq rfl rfl ?_
    rintro m ⟨⟩
    exact (hs.traced l live).extend extend
  | dropped => exact hs.of_eq rfl rfl nofun
  | settled => exact hs.settle hn _
  | erased hit => exact hs.commit_subset (kept_erased_subset hit)
  | cleared => exact hs.commit_subset (kept_commit_subset (List.nil_subset _))
  | undone step =>
    exact hs.of_eq (kept_eq_of_entries (Timeline.of_undo?_eq_some step).1) rfl hs.traced
  | redone step =>
    exact hs.of_eq (kept_eq_of_entries (Timeline.of_redo?_eq_some step).1) rfl hs.traced

theorem coherent_build (c : Config α) : Coherent (build c) where
  nodup := List.nodup_nil
  exists_of_mem := nofun
  curve := nofun
  traced := nofun

theorem Reachable.coherent (h : s.Reachable) : s.Coherent := by
  have hboth : s.Numbered ∧ s.Coherent := by
    refine h.invariant (P := fun s => s.Numbered ∧ s.Coherent)
      (fun c _ => ⟨numbered_build c, coherent_build c⟩) ?_
    rintro s t hstep ⟨hn, hs⟩
    refine ⟨hstep.numbered hn, ?_⟩
    cases hstep with
    | steered | selected | drained => exact hs.of_eq rfl rfl hs.traced
    | edited edit => exact edit.coherent hs hn
  exact hboth.2

/-! ## Before and after a commit -/

theorem Reachable.beforeCommit (h : s.Reachable) (a : Action α) : (s.beforeCommit a).Reachable := by
  cases a with
  | handle e =>
    rw [Session.beforeCommit]
    cases (s.arbiter.handle e s.view s.settings.tool).2 with
    | none => exact h
    | some command =>
      cases command with
      | finish last =>
        cases last with
        | none => exact h
        | some p => exact h.run [.extendStroke p]
      | _ => exact h
  | _ => exact h

theorem beforeCommit_view (s : Session α) (a : Action α) : (s.beforeCommit a).view = s.view := by
  cases a with
  | handle e =>
    rw [beforeCommit]
    cases (s.arbiter.handle e s.view s.settings.tool).2 with
    | none => rfl
    | some command =>
      cases command with
      | finish last =>
        cases last with
        | none => rfl
        | some p =>
          obtain ⟨live, revision, heq⟩ := s.exists_extendStroke_eq p
          change (s.extendStroke p).1.view = s.view
          rw [heq]
      | _ => rfl
  | _ => rfl

/-- Over every run from a valid configuration the cache has exactly one curve for each stroke on the
canvas or in its history, each is the curve of its stroke, and the curve that grows with the stroke
being drawn is the curve of that stroke. So the frame is the one that is built from the strokes alone,
and whatever call commits the stroke being drawn, it looks afterwards as it did right before, and lies
on top. -/
theorem run_frame_eq_redrawn {c : Config α} {start : Session α} (hc : ofConfig c = .ok start)
    (actions : List (Action α)) :
    let s := start.run actions
    s.cache.ids.Nodup ∧ (∀ id, id ∈ s.cache.ids ↔ ∃ ink ∈ s.kept, ink.id = id) ∧
    (∀ ink ∈ s.kept, s.cache.get? ink.id = some ink.stroke.path) ∧
    (∀ l, s.live = some l → l.trail.path = l.stroke.path) ∧
    s.frame = s.redrawn ∧
    ∀ a, (s.perform a).1.committed ≠ s.committed → ∃ mark,
      (s.beforeCommit a).frame.live = some mark ∧
      (s.perform a).1.frame.strokes.getLast? = some { mark with id := some (s.committed + 1) } := by
  intro s
  have hs : s.Reachable := ⟨c, start, actions, hc, rfl⟩
  have hcoherent := hs.coherent
  refine ⟨hcoherent.nodup, fun id => hcoherent.mem_ids_iff, hcoherent.curve, ?_,
    hcoherent.frame, ?_⟩
  · intro l hl
    exact (hcoherent.traced l hl).path
  · intro a ha
    obtain ⟨l, hl, hcommits⟩ := perform_commits hs.items_pos ha
    have hpath : l.trail.path = l.stroke.path := ((hs.beforeCommit a).coherent.traced l hl).path
    refine ⟨Mark.resolve none l.stroke.path l.stroke s.view, ?_, ?_⟩
    · change (s.beforeCommit a).live.map _ = _
      rw [hl, Option.map_some, hpath, s.beforeCommit_view]
    · have hafter : (s.perform a).1.frame = (s.perform a).1.redrawn := (hs.run [a]).coherent.frame
      rw [hafter, redrawn, List.getLast?_map, hcommits.last, Option.map_some, hcommits.view]
      rfl

/-- Two strokes, the first of them taken back and up again, and the eraser on the second: its curve is
kept for the history, and the frame shows the first. -/
theorem run_frame_eq_redrawn_of_erased_stroke :
    let actions : List (Action Float) :=
      [.beginStroke ⟨⟨1, 2⟩, 0, none⟩, .extendStroke ⟨⟨3, 4⟩, 5, none⟩, .finishStroke, .undo, .redo,
        .beginStroke ⟨⟨90, 90⟩, 7, none⟩, .finishStroke, .zoom 2 ⟨0, 0⟩, .eraseAt ⟨90, 90⟩]
    let s := (build (Config.standard : Config Float)).run actions
    ofConfig Config.standard = .ok (build (Config.standard : Config Float)) ∧
      s.strokes.map Inked.id = [1] ∧ 2 ∈ s.cache.ids ∧ 3 ∉ s.cache.ids ∧ s.frame = s.redrawn := by
  intro actions s
  have hc : ofConfig Config.standard = .ok (build (Config.standard : Config Float)) :=
    ofConfig_eq_ok_iff.mpr ⟨Option.isNone_iff_eq_none.mp (by decide +kernel), rfl⟩
  obtain ⟨-, hids, -, -, hframe, -⟩ := run_frame_eq_redrawn hc actions
  have hkept : s.kept.map Inked.id = [1, 1, 2, 1] := by decide +kernel
  refine ⟨hc, by decide +kernel, ?_, ?_, hframe⟩
  · refine (hids 2).mpr (List.mem_map.mp ?_)
    rw [hkept]
    decide
  · intro hmem
    have hmap := List.mem_map.mpr ((hids 3).mp hmem)
    rw [hkept] at hmap
    exact absurd hmap (by decide)

end Session
end InkCanvas
