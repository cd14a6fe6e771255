import InkCanvas.Proofs.Bounds
import InkCanvas.Proofs.Session.Storage

/-! # What the eraser takes

In exact arithmetic the eraser hits the strokes with a sample within its radius, and no others
(`Eraser.hits_real`). A session loses exactly these, in one step that can be taken back; where there are
none it stays as it is (`Session.eraser_exact`). -/

namespace InkCanvas

theorem countP_add_length_filter_not {β : Type} (hit : β → Bool) (items : List β) :
    items.countP hit + (items.filter fun x => !hit x).length = items.length := by
  rw [items.length_eq_countP_add_countP hit, ← List.countP_eq_length_filter]
  simp only [Bool.not_eq_true, ← Bool.not_eq_true', Bool.decide_eq_true]

namespace Eraser

theorem touches_real {radius : ℝ} (hradius : 0 < radius) (p : Point ℝ) :
    (fun ink : Inked ℝ => touches p radius ink.stroke) =
      fun ink => decide (Reaches p radius ink.stroke) := by
  funext ink
  rw [Bool.eq_iff_iff, touches_iff hradius.le, decide_eq_true_iff]

theorem isPositive_real {radius : ℝ} : Scalar.isPositive radius = true ↔ 0 < radius := by
  rw [Scalar.isPositive, Scalar.isFinite_real, Bool.true_and, decide_eq_true_iff]

/-- The eraser hits exactly the strokes with a sample within its radius, in the order of the list. -/
theorem hits_real (strokes : List (Inked ℝ)) (p : Point ℝ) {radius : ℝ} (hradius : 0 < radius) :
    hits strokes p radius =
      .ok ((strokes.filter fun ink => Reaches p radius ink.stroke).map Inked.id) := by
  rw [hits_of_isFinite rfl (isPositive_real.mpr hradius), touches_real hradius]

end Eraser

namespace Session

variable {α : Type} {s : Session α} {remaining : List (Inked α)}

/-- Fewer strokes than before are not too many. -/
theorem Bounded.strokes_commit (h : s.Bounded) (hfewer : remaining.Sublist s.strokes) :
    (s.commit remaining).strokes = remaining := by
  have hpresent : s.strokes ∈ s.timeline.entries := by simp [Timeline.entries, Session.strokes]
  exact newest_eq_self (hfewer.length_le.trans (h.short s.strokes hpresent))

variable [Scalar α]

theorem Reachable.timeline_commit (h : s.Reachable) (hfewer : remaining.Sublist s.strokes) :
    (s.commit remaining).timeline =
      ⟨(s.strokes :: s.timeline.past).take s.limits.depth, remaining, []⟩ := by
  change Timeline.mk (s.commit remaining).timeline.past (s.commit remaining).strokes [] = _
  rw [h.past_commit, h.bounded.strokes_commit hfewer]

theorem strokes_settle_of_room {l : Live α} (h : s.strokes.length < s.limits.items) :
    (s.settle l).strokes = s.strokes ++ [⟨s.committed + 1, l.stroke⟩] := by
  rw [strokes, settle_timeline]
  exact newest_eq_self (by simpa using h)

theorem Reachable.eraseAt_eq (h : s.Reachable) {p : Point α} (hp : p.isFinite = true)
    {hit : Inked α → Bool}
    (hhit : (fun ink : Inked α => Eraser.touches p s.config.eraserRadius ink.stroke) = hit) :
    s.eraseAt p =
      if s.strokes.countP hit = 0 then (s, 0)
      else (s.commit (s.strokes.filter fun ink => !hit ink), s.strokes.countP hit) := by
  have hunique : ∀ ink ∈ s.strokes, ∀ ink' ∈ s.strokes, ink.id = ink'.id → ink = ink' :=
    fun ink hink ink' hink' =>
      h.numbered.unique ink (mem_kept_of_mem_strokes hink) ink' (mem_kept_of_mem_strokes hink')
  have hcount : s.strokes.length - (s.strokes.filter fun ink => !hit ink).length =
      s.strokes.countP hit := by
    have hsplit := countP_add_length_filter_not hit s.strokes
    omega
  unfold eraseAt
  rw [Eraser.erase_of_unique hp h.valid.eraserRadius_pos hunique]
  subst hhit
  by_cases hnone : s.strokes.countP (fun ink => Eraser.touches p s.config.eraserRadius ink.stroke) = 0
  · rw [if_pos hnone, if_pos hnone]
  · rw [if_neg hnone, if_neg hnone, ← hcount]

/-- In exact arithmetic the eraser hits the strokes with a sample within its radius, each of them and
in the order of the list. A session tells how many there are for its own radius. It stays as it is if
there are none. Otherwise it goes on with the other strokes, in their order, keeps the list it had as the
nearest step back, and has no step forth. -/
theorem eraser_exact :
    (∀ (strokes : List (Inked ℝ)) (p : Point ℝ) (radius : ℝ), 0 < radius →
      Eraser.hits strokes p radius =
        .ok ((strokes.filter fun ink => Eraser.Reaches p radius ink.stroke).map Inked.id)) ∧
    ∀ s : Session ℝ, s.Reachable → ∀ p : Point ℝ,
      let hit (ink : Inked ℝ) : Bool := Eraser.Reaches p s.config.eraserRadius ink.stroke
      let t := (s.eraseAt p).1
      (s.eraseAt p).2 = s.strokes.countP hit ∧
      (s.strokes.countP hit = 0 → t = s) ∧
      (s.strokes.countP hit ≠ 0 →
        t.timeline = ⟨(s.strokes :: s.timeline.past).take s.limits.depth,
          s.strokes.filter fun ink => !hit ink, []⟩ ∧
        t.undo.1.strokes = s.strokes) := by
  refine ⟨fun strokes p _ => Eraser.hits_real strokes p, fun s hs p => ?_⟩
  intro hit t
  have hradius : 0 < s.config.eraserRadius := Eraser.isPositive_real.mp hs.valid.eraserRadius_pos
  have herase := hs.eraseAt_eq (p := p) rfl (Eraser.touches_real hradius p)
  have hfewer : (s.strokes.filter fun ink => !hit ink).Sublist s.strokes := List.filter_sublist
  by_cases hnone : s.strokes.countP hit = 0
  · rw [if_pos hnone] at herase
    exact ⟨by rw [herase, hnone], fun _ => congrArg Prod.fst herase, fun hsome => absurd hnone hsome⟩
  · rw [if_neg hnone] at herase
    have ht : t = s.commit (s.strokes.filter fun ink => !hit ink) := congrArg Prod.fst herase
    refine ⟨congrArg Prod.snd herase, fun hzero => absurd hzero hnone, fun _ => ?_⟩
    rw [ht]
    exact ⟨hs.timeline_commit hfewer, (undo_commit hs.depth_pos _).2⟩

/-- A dot as far from the eraser as its radius goes is taken and comes back; a little farther it stays. -/
theorem eraser_exact_of_dot :
    let s := (build (Config.standard : Config ℝ)).run [.beginStroke ⟨⟨0, 0⟩, 0, none⟩, .finishStroke]
    s.Reachable ∧ (s.eraseAt ⟨6, 8⟩).2 = 1 ∧ (s.eraseAt ⟨6, 8⟩).1.strokes = [] ∧
      (s.eraseAt ⟨6, 8⟩).1.undo.1.strokes = s.strokes ∧ s.eraseAt ⟨6, 9⟩ = (s, 0) := by
  intro s
  have hc : ofConfig Config.standard = .ok (build (Config.standard : Config ℝ)) :=
    ofConfig_eq_ok_iff.mpr ⟨Config.fault?_eq_none_iff.mpr Config.valid_standard_real, rfl⟩
  have hs : s.Reachable := ⟨_, _, _, hc, rfl⟩
  have hwidth : Scalar.isPositive (3 : ℝ) = true := Eraser.isPositive_real.mpr (by norm_num)
  obtain ⟨l, hl, hpositions⟩ : ∃ l, Live.start ⟨⟨0, 0⟩, 0, none⟩
      (build (Config.standard : Config ℝ)).settings = .ok l ∧ l.stroke.positions = [⟨0, 0⟩] := by
    have hpositive : Scalar.isPositive (build (Config.standard : Config ℝ)).settings.style.width =
        true := Eraser.isPositive_real.mpr (by norm_num [build, Config.standard])
    unfold Live.start Stroke.start
    rw [hpositive]
    exact ⟨_, rfl, rfl⟩
  have hdrawn : s.strokes = [⟨1, l.stroke⟩] := by
    have hroom : 0 < (build (Config.standard : Config ℝ)).limits.items := by decide
    change ((build _).beginStroke _).1.finishStroke.1.strokes = _
    rw [beginStroke_of_ok hl, finishStroke_of_some rfl]
    exact strokes_settle_of_room hroom
  have hreach (p : Point ℝ) :
      Eraser.Reaches p s.config.eraserRadius l.stroke ↔ p.x * p.x + p.y * p.y ≤ 100 := by
    have hconfig : s.config = Config.standard := run_config _ _
    norm_num [Eraser.Reaches, hpositions, hconfig, Config.standard, Point.distanceSq]
  have hexact := eraser_exact.2 s hs
  obtain ⟨hone, -, htaken⟩ := hexact ⟨6, 8⟩
  obtain ⟨hnone, hsame, -⟩ := hexact ⟨6, 9⟩
  norm_num [hdrawn, hreach] at hone htaken hnone hsame
  refine ⟨hs, hone, ?_, ?_, Prod.ext hsame hnone⟩
  · rw [strokes, htaken.1]
  · rw [htaken.2, hdrawn]

end Session
end InkCanvas
