import InkCanvas.Stored.Engine
import InkCanvas.Proofs.Draft
import InkCanvas.Proofs.Scalar

/-! # What keeps a viewport sound

Every change clamps the scale, so a viewport that starts within its bounds stays within them
(`Viewport.WithinBounds.after`). Every change but one looks at the offset it is about to take:
`Viewport.fit` takes what it has computed, and if that is not finite the canvas is lost on the screen.
It stays lost through any displacement, scaling or pinch, and is found again only when it is set,
reset or fitted anew (`Viewport.Made.after_sound`). -/

namespace InkCanvas

/-- A change that a viewport is asked for. -/
inductive Adjustment (α : Type) where
  | set (scale : α) (offset : Point α)
  | pan (delta : Point α)
  | zoomAt (anchor : Point α) (factor : α)
  | pinched (startMid currentMid : Point α) (ratio : α)
  | reset
  | fit (r : Rect α) (width height padding : α)

/-- The change is granted whatever the viewport is, and the offset afterwards does not come from the
one before. -/
def Adjustment.replaces {α : Type} [Scalar α] : Adjustment α → Bool
  | .set scale offset => Scalar.isFinite scale && offset.isFinite
  | .reset | .fit .. => true
  | .pan _ | .zoomAt .. | .pinched .. => false

theorem bind_eq_ok_iff {ε β γ : Type} {x : Except ε β} {f : β → Except ε γ} {c : γ} :
    x >>= f = .ok c ↔ ∃ b, x = .ok b ∧ f b = .ok c := by
  cases x with
  | error e => exact ⟨nofun, nofun⟩
  | ok b => exact ⟨fun h => ⟨b, rfl, h⟩, fun ⟨_, h, hf⟩ => by cases h; exact hf⟩

theorem Point.requireFinite_eq_ok_iff {α : Type} [Scalar α] {p q : Point α} :
    p.requireFinite = .ok q ↔ p.isFinite = true ∧ q = p := by
  unfold requireFinite
  split
  next h => simp [h, eq_comm]
  next h => simp [h]

theorem Point.isFinite_iff {α : Type} [Scalar α] {p : Point α} :
    p.isFinite = true ↔ Scalar.isFinite p.x = true ∧ Scalar.isFinite p.y = true :=
  Bool.and_eq_true_iff

namespace Viewport

variable {α : Type} [Scalar α]

/-- What the viewport is asked for, if it grants it. -/
def adjust (v : Viewport α) : Adjustment α → Except (InkError α) (Viewport α)
  | .set scale offset => v.set scale offset
  | .pan delta => v.pan delta
  | .zoomAt anchor factor => (v.zoomAt anchor factor).map (·.getD v)
  | .pinched startMid currentMid ratio => v.pinched startMid currentMid ratio
  | .reset => .ok v.reset
  | .fit r width height padding => .ok (v.fit r width height padding)

/-- The viewport after it was asked for a change, as it was if it refused. -/
def adjusted (v : Viewport α) (a : Adjustment α) : Viewport α := (v.adjust a).toOption.getD v

/-- The viewport after it was asked for a list of changes. -/
def after (v : Viewport α) (adjustments : List (Adjustment α)) : Viewport α :=
  adjustments.foldl adjusted v

variable {v w : Viewport α}

/-! ## What the changes do -/

theorem requireScale_eq_ok_iff {s t : α} :
    requireScale s = .ok t ↔ Scalar.isFinite s = true ∧ t = s := by
  unfold requireScale
  split
  next h => simp [h, eq_comm]
  next h => simp [h]

theorem set_eq_ok_iff {scale : α} {offset : Point α} :
    v.set scale offset = .ok w ↔ Scalar.isFinite scale = true ∧ offset.isFinite = true ∧
      w = { v with scale := v.clampScale scale, offset } := by
  simp only [set, bind_eq_ok_iff, requireScale_eq_ok_iff, Point.requireFinite_eq_ok_iff]
  constructor
  · rintro ⟨_, ⟨hscale, rfl⟩, _, ⟨hoffset, rfl⟩, h⟩
    exact ⟨hscale, hoffset, (Except.ok.inj h).symm⟩
  · rintro ⟨hscale, hoffset, rfl⟩
    exact ⟨_, ⟨hscale, rfl⟩, _, ⟨hoffset, rfl⟩, rfl⟩

theorem pan_eq_ok_iff {delta : Point α} :
    v.pan delta = .ok w ↔ delta.isFinite = true ∧ (v.offset + delta).isFinite = true ∧
      w = { v with offset := v.offset + delta } := by
  simp only [pan, bind_eq_ok_iff, Point.requireFinite_eq_ok_iff]
  constructor
  · rintro ⟨_, ⟨hdelta, rfl⟩, _, ⟨hoffset, rfl⟩, h⟩
    exact ⟨hdelta, hoffset, (Except.ok.inj h).symm⟩
  · rintro ⟨hdelta, hoffset, rfl⟩
    exact ⟨_, ⟨hdelta, rfl⟩, _, ⟨hoffset, rfl⟩, rfl⟩

/-- The viewport scaled by a factor, that shows under `target` what was under `source`. -/
def carried (v : Viewport α) (source target : Point α) (factor : α) :
    Except (InkError α) (Viewport α) :=
  let scale := v.clampScale (v.scale * factor)
  v.set scale (anchored (v.toCanvas source) target scale)

theorem carried_of_zoomAt {anchor : Point α} {factor : α} {zoomed : Option (Viewport α)}
    (h : v.zoomAt anchor factor = .ok zoomed) :
    zoomed = none ∨ ∃ w, zoomed = some w ∧ v.carried anchor anchor factor = .ok w := by
  simp only [zoomAt, bind_eq_ok_iff, requireScale_eq_ok_iff, Point.requireFinite_eq_ok_iff] at h
  obtain ⟨factor, ⟨-, rfl⟩, anchor, ⟨-, rfl⟩, h⟩ := h
  split at h
  · cases h
    exact .inl rfl
  · change some <$> v.carried anchor anchor factor = .ok zoomed at h
    cases hcarried : v.carried anchor anchor factor with
    | error e => rw [hcarried] at h; cases h
    | ok w =>
      rw [hcarried] at h
      cases h
      exact .inr ⟨w, rfl, rfl⟩

theorem carried_of_adjust_zoomAt {anchor : Point α} {factor : α}
    (h : v.adjust (.zoomAt anchor factor) = .ok w) :
    w = v ∨ v.carried anchor anchor factor = .ok w := by
  cases hzoom : v.zoomAt anchor factor with
  | error e => rw [adjust, hzoom] at h; cases h
  | ok zoomed =>
    rw [adjust, hzoom] at h
    cases h
    rcases carried_of_zoomAt hzoom with rfl | ⟨w, rfl, hcarried⟩
    · exact .inl rfl
    · exact .inr hcarried

theorem carried_of_pinched {startMid currentMid : Point α} {ratio : α}
    (h : v.pinched startMid currentMid ratio = .ok w) :
    v.carried startMid currentMid ratio = .ok w := by
  simp only [pinched, bind_eq_ok_iff, requireScale_eq_ok_iff, Point.requireFinite_eq_ok_iff] at h
  obtain ⟨_, ⟨-, rfl⟩, _, ⟨-, rfl⟩, _, ⟨-, rfl⟩, h⟩ := h
  exact h

/-- A granted change keeps the bounds, and the scale if it does not clamp a new one. -/
theorem exists_eq_of_adjust {a : Adjustment α} (h : v.adjust a = .ok w) :
    ∃ scale offset, w = { v with scale, offset } ∧
      (scale = v.scale ∨ ∃ s, scale = v.clampScale s) := by
  cases a with
  | set s offset =>
    obtain ⟨-, -, rfl⟩ := set_eq_ok_iff.mp h
    exact ⟨_, _, rfl, .inr ⟨s, rfl⟩⟩
  | pan delta =>
    obtain ⟨-, -, rfl⟩ := pan_eq_ok_iff.mp h
    exact ⟨_, _, rfl, .inl rfl⟩
  | zoomAt anchor factor =>
    rcases carried_of_adjust_zoomAt h with rfl | hcarried
    · exact ⟨_, _, rfl, .inl rfl⟩
    · obtain ⟨-, -, rfl⟩ := set_eq_ok_iff.mp hcarried
      exact ⟨_, _, rfl, .inr ⟨_, rfl⟩⟩
  | pinched startMid currentMid ratio =>
    obtain ⟨-, -, rfl⟩ := set_eq_ok_iff.mp (carried_of_pinched h)
    exact ⟨_, _, rfl, .inr ⟨_, rfl⟩⟩
  | reset =>
    cases h
    exact ⟨_, _, rfl, .inr ⟨_, rfl⟩⟩
  | fit r width height padding =>
    cases h
    exact ⟨_, _, rfl, .inr ⟨_, rfl⟩⟩

theorem adjusted_of_ok {a : Adjustment α} (h : v.adjust a = .ok w) : v.adjusted a = w := by
  rw [adjusted, h]
  rfl

theorem adjusted_of_error {a : Adjustment α} {e : InkError α} (h : v.adjust a = .error e) :
    v.adjusted a = v := by
  rw [adjusted, h]
  rfl

theorem after_append_singleton (v : Viewport α) (before : List (Adjustment α)) (a : Adjustment α) :
    v.after (before ++ [a]) = (v.after before).adjusted a := by
  simp [after]

/-! ## Scale and bounds -/

/-- The bounds are in order, above zero and finite, and the scale lies between them. -/
structure WithinBounds (v : Viewport α) : Prop where
  isFinite_minScale : Scalar.isFinite v.minScale = true
  isFinite_maxScale : Scalar.isFinite v.maxScale = true
  minScale_pos : 0 < v.minScale
  minScale_le_maxScale : v.minScale ≤ v.maxScale
  minScale_le_scale : v.minScale ≤ v.scale
  scale_le_maxScale : v.scale ≤ v.maxScale

section Lawful

variable [LawfulScalar α]

namespace WithinBounds

theorem isFinite_scale (h : v.WithinBounds) : Scalar.isFinite v.scale = true :=
  LawfulScalar.isFinite_of_within h.isFinite_minScale h.isFinite_maxScale h.minScale_le_scale
    h.scale_le_maxScale

theorem rescaled (h : v.WithinBounds) (scale : α) (offset : Point α) :
    WithinBounds { v with scale := v.clampScale scale, offset } := by
  obtain ⟨hge, hle⟩ := Scalar.clamp_within h.isFinite_minScale h.isFinite_maxScale
    h.minScale_le_maxScale scale
  exact { h with minScale_le_scale := hge, scale_le_maxScale := hle }

omit [LawfulScalar α] in
theorem displaced (h : v.WithinBounds) (offset : Point α) : WithinBounds { v with offset } :=
  { h with }

theorem adjusted (h : v.WithinBounds) (a : Adjustment α) : (v.adjusted a).WithinBounds := by
  cases hadjust : v.adjust a with
  | error e => rwa [adjusted_of_error hadjust]
  | ok w =>
    rw [adjusted_of_ok hadjust]
    obtain ⟨_, offset, rfl, rfl | ⟨scale, rfl⟩⟩ := exists_eq_of_adjust hadjust
    · exact h.displaced offset
    · exact h.rescaled scale offset

theorem after (h : v.WithinBounds) (adjustments : List (Adjustment α)) :
    (v.after adjustments).WithinBounds := by
  induction adjustments using List.reverseRecOn with
  | nil => exact h
  | append_singleton before a ih =>
    rw [after_append_singleton]
    exact ih.adjusted a

end WithinBounds

theorem withinBounds_withBounds {lo hi : α} (hlo : Scalar.isFinite lo = true)
    (hhi : Scalar.isFinite hi = true) (hpos : 0 < lo) (hle : lo ≤ hi) :
    (withBounds lo hi).WithinBounds := by
  obtain ⟨hge, hle'⟩ := Scalar.clamp_within hlo hhi hle 1
  exact ⟨hlo, hhi, hpos, hle, hge, hle'⟩

theorem sound_of_ofStored {scale lo hi : α} {offset : Point α}
    (h : ofStored scale offset lo hi = .ok v) : v.WithinBounds ∧ v.offset.isFinite = true := by
  unfold ofStored at h
  split at h
  next hbounds =>
    simp only [Bool.and_eq_true, decide_eq_true_eq] at hbounds
    obtain ⟨⟨⟨hlo, hhi⟩, hpos⟩, hle⟩ := hbounds
    obtain ⟨-, hoffset, rfl⟩ := set_eq_ok_iff.mp h
    exact ⟨(withinBounds_withBounds hlo hhi hpos hle).rescaled scale offset, hoffset⟩
  next => cases h

end Lawful

theorem bounds_adjusted (v : Viewport α) (a : Adjustment α) :
    (v.adjusted a).minScale = v.minScale ∧ (v.adjusted a).maxScale = v.maxScale := by
  cases hadjust : v.adjust a with
  | error e =>
    rw [adjusted_of_error hadjust]
    exact ⟨rfl, rfl⟩
  | ok w =>
    rw [adjusted_of_ok hadjust]
    obtain ⟨_, _, rfl, -⟩ := exists_eq_of_adjust hadjust
    exact ⟨rfl, rfl⟩

theorem bounds_after (v : Viewport α) (adjustments : List (Adjustment α)) :
    (v.after adjustments).minScale = v.minScale ∧ (v.after adjustments).maxScale = v.maxScale := by
  induction adjustments using List.reverseRecOn with
  | nil => exact ⟨rfl, rfl⟩
  | append_singleton before a ih =>
    obtain ⟨hlo, hhi⟩ := bounds_adjusted (v.after before) a
    rw [after_append_singleton]
    exact ⟨hlo.trans ih.1, hhi.trans ih.2⟩

/-! ## The offset -/

section Lawful

variable [LawfulScalar α]

theorem isFinite_of_isFinite_carried {source target : Point α} {factor : α}
    (h : v.carried source target factor = .ok w) :
    v.offset.isFinite = true ∧ w.offset.isFinite = true := by
  obtain ⟨-, hoffset, rfl⟩ := set_eq_ok_iff.mp h
  refine ⟨?_, hoffset⟩
  -- The canvas point under the source is computed from the old offset and enters the new one.
  obtain ⟨hx, hy⟩ := Point.isFinite_iff.mp hoffset
  have isFinite_of_anchored {place canvas shift scale : α}
      (h : Scalar.isFinite (place - (canvas - shift) / v.effectiveScale * scale) = true) :
      Scalar.isFinite shift = true :=
    (LawfulScalar.isFinite_of_sub (LawfulScalar.isFinite_of_div
      (LawfulScalar.isFinite_of_mul (LawfulScalar.isFinite_of_sub h).2).1)).2
  exact Point.isFinite_iff.mpr ⟨isFinite_of_anchored hx, isFinite_of_anchored hy⟩

theorem isFinite_add {p q : Point α} (h : (p + q).isFinite = true) : p.isFinite = true := by
  obtain ⟨hx, hy⟩ := Point.isFinite_iff.mp h
  exact Point.isFinite_iff.mpr
    ⟨(LawfulScalar.isFinite_of_add hx).1, (LawfulScalar.isFinite_of_add hy).1⟩

/-- What starts from the old offset gives a finite one exactly if that was finite. -/
theorem isFinite_offset_adjusted {a : Adjustment α} (ha : a.replaces = false) :
    (v.adjusted a).offset.isFinite = v.offset.isFinite := by
  cases hadjust : v.adjust a with
  | error e => rw [adjusted_of_error hadjust]
  | ok w =>
    rw [adjusted_of_ok hadjust]
    cases a with
    | set scale offset =>
      obtain ⟨hscale, hoffset, -⟩ := set_eq_ok_iff.mp hadjust
      rw [Adjustment.replaces, hscale, hoffset] at ha
      cases ha
    | reset | fit => cases ha
    | pan delta =>
      obtain ⟨-, hoffset, rfl⟩ := pan_eq_ok_iff.mp hadjust
      rw [hoffset, isFinite_add hoffset]
    | zoomAt anchor factor =>
      rcases carried_of_adjust_zoomAt hadjust with rfl | hcarried
      · rfl
      · obtain ⟨hold, hnew⟩ := isFinite_of_isFinite_carried hcarried
        exact hnew.trans hold.symm
    | pinched startMid currentMid ratio =>
      obtain ⟨hold, hnew⟩ := isFinite_of_isFinite_carried (carried_of_pinched hadjust)
      exact hnew.trans hold.symm

/-- Only fitting replaces the offset by one that is not finite. -/
theorem isFinite_offset_adjusted_of_replaces {a : Adjustment α} (ha : a.replaces = true)
    (hfit : ∀ r width height padding, a ≠ .fit r width height padding) :
    (v.adjusted a).offset.isFinite = true := by
  cases a with
  | set scale offset =>
    obtain ⟨hscale, hoffset⟩ := Bool.and_eq_true_iff.mp ha
    have hset : v.adjust (.set scale offset) = .ok _ := set_eq_ok_iff.mpr ⟨hscale, hoffset, rfl⟩
    rw [adjusted_of_ok hset]
    exact hoffset
  | reset => exact Point.isFinite_iff.mpr ⟨LawfulScalar.isFinite_zero, LawfulScalar.isFinite_zero⟩
  | fit r width height padding => exact absurd rfl (hfit r width height padding)
  | pan | zoomAt | pinched => cases ha

theorem isFinite_offset_after_of_not_replaces {later : List (Adjustment α)}
    (h : ∀ a ∈ later, a.replaces = false) (v : Viewport α) :
    (v.after later).offset.isFinite = v.offset.isFinite := by
  induction later generalizing v with
  | nil => rfl
  | cons a later ih =>
    have hstep := isFinite_offset_adjusted (v := v) (h a (.head _))
    exact (ih (fun b hb => h b (.tail _ hb)) (v.adjusted a)).trans hstep

end Lawful

/-- The adjustments lost the canvas: a fit among them computed an offset that is not finite, and
nothing after it replaced that. -/
def LostBy (v : Viewport α) (adjustments : List (Adjustment α)) : Prop :=
  ∃ before r width height padding later,
    adjustments = before ++ .fit r width height padding :: later ∧
    ((v.after before).fit r width height padding).offset.isFinite = false ∧
    ∀ a ∈ later, a.replaces = false

theorem LostBy.isFinite_offset_after [LawfulScalar α] {adjustments : List (Adjustment α)}
    (h : v.LostBy adjustments) : (v.after adjustments).offset.isFinite = false := by
  obtain ⟨before, r, width, height, padding, later, rfl, hfit, hlater⟩ := h
  rw [after, List.foldl_append]
  exact (isFinite_offset_after_of_not_replaces hlater _).trans hfit

theorem lostBy_of_isFinite_offset_after [LawfulScalar α] (hv : v.offset.isFinite = true)
    {adjustments : List (Adjustment α)} (h : (v.after adjustments).offset.isFinite = false) :
    v.LostBy adjustments := by
  induction adjustments using List.reverseRecOn with
  | nil =>
    rw [after, List.foldl_nil, hv] at h
    cases h
  | append_singleton before a ih =>
    rw [after_append_singleton] at h
    cases ha : a.replaces with
    | false =>
      -- The canvas was lost before, and stays so.
      rw [isFinite_offset_adjusted ha] at h
      obtain ⟨earlier, r, width, height, padding, later, rfl, hfit, hlater⟩ := ih h
      refine ⟨earlier, r, width, height, padding, later ++ [a], by simp, hfit, ?_⟩
      intro b hb
      rcases List.mem_append.mp hb with hb | hb
      · exact hlater b hb
      · rwa [List.mem_singleton.mp hb]
    | true =>
      by_cases hfit : ∃ r width height padding, a = .fit r width height padding
      · obtain ⟨r, width, height, padding, rfl⟩ := hfit
        exact ⟨before, r, width, height, padding, [], rfl, h, by simp⟩
      · have hne := fun r width height padding h => hfit ⟨r, width, height, padding, h⟩
        rw [isFinite_offset_adjusted_of_replaces ha hne] at h
        cases h

/-! ## The viewports of the program -/

/-- How a viewport comes about: unasked, from bounds in order, or from a text. -/
inductive Made : Viewport Float → Prop where
  | initial : Made .initial
  | withBounds {lo hi : Float} : Scalar.isFinite lo = true → Scalar.isFinite hi = true → 0 < lo →
      lo ≤ hi → Made (.withBounds lo hi)
  | loaded {stored : Json.Value} {v : Viewport Float} : ofJson? stored = some v → Made v

theorem sound_of_ofJson? {stored : Json.Value} {v : Viewport Float} (h : ofJson? stored = some v) :
    v.WithinBounds ∧ v.offset.isFinite = true := by
  simp only [ofJson?, bind, Option.bind_eq_some_iff] at h
  obtain ⟨_, -, scale, -, offset, -, lo, -, hi, -, h⟩ := h
  cases hstored : ofStored scale offset lo hi with
  | error e => rw [hstored] at h; cases h
  | ok w =>
    rw [hstored] at h
    cases h
    exact sound_of_ofStored hstored

theorem Made.sound {v : Viewport Float} (h : Made v) :
    v.WithinBounds ∧ v.offset.isFinite = true := by
  have isFinite_zero : (Point.zero : Point Float).isFinite = true := by decide
  cases h with
  | initial =>
    refine ⟨⟨?_, ?_, ?_, ?_, ?_, ?_⟩, isFinite_zero⟩ <;> decide +kernel
  | withBounds hlo hhi hpos hle => exact ⟨withinBounds_withBounds hlo hhi hpos hle, isFinite_zero⟩
  | loaded h => exact sound_of_ofJson? h

/-- Whatever a viewport is asked for, its bounds stay, its scale is a finite number between them, and
a refusal changes nothing. Its offset is finite too unless a fit lost the canvas and nothing found it
again. -/
theorem Made.after_sound {v : Viewport Float} (hv : Made v)
    (adjustments : List (Adjustment Float)) :
    (v.after adjustments).minScale = v.minScale ∧ (v.after adjustments).maxScale = v.maxScale ∧
    Scalar.isFinite (v.after adjustments).scale = true ∧
    v.minScale ≤ (v.after adjustments).scale ∧ (v.after adjustments).scale ≤ v.maxScale ∧
    (∀ a e, (v.after adjustments).adjust a = .error e →
      v.after (adjustments ++ [a]) = v.after adjustments) ∧
    ((v.after adjustments).offset.isFinite = false ↔ v.LostBy adjustments) := by
  obtain ⟨hbounds, hoffset⟩ := hv.sound
  obtain ⟨hlo, hhi⟩ := bounds_after v adjustments
  have hafter := hbounds.after adjustments
  refine ⟨hlo, hhi, hafter.isFinite_scale, hlo ▸ hafter.minScale_le_scale,
    hhi ▸ hafter.scale_le_maxScale, ?_, lostBy_of_isFinite_offset_after hoffset,
    LostBy.isFinite_offset_after⟩
  intro a e hrefused
  rw [after_append_singleton, adjusted_of_error hrefused]

/-- A finite rectangle whose middle is too far out to be computed loses the canvas. -/
theorem Made.after_sound_of_far_rectangle :
    Made .initial ∧
      (after .initial [.fit ⟨1e308, 0, 1e308, 1⟩ 100 100 0, .pan ⟨5, 5⟩]).offset.isFinite = false := by
  obtain ⟨-, -, -, -, -, -, lost⟩ := Made.after_sound .initial
    [.fit ⟨1e308, 0, 1e308, 1⟩ 100 100 0, .pan ⟨5, 5⟩]
  refine ⟨.initial, lost.mpr ⟨[], _, _, _, _, [.pan ⟨5, 5⟩], rfl, ?_, ?_⟩⟩
  · decide +kernel
  · simp [Adjustment.replaces]

end Viewport
end InkCanvas
