import InkCanvas.Eraser

/-! # What the eraser removes -/

namespace InkCanvas.Eraser

variable {α : Type} [Scalar α] {strokes remaining : List (Inked α)} {p : Point α} {radius : α}

/-- The numbers that are hit belong to strokes of the list. -/
theorem exists_of_mem_hits {ids : List Nat} (h : hits strokes p radius = .ok ids) {id : Nat}
    (hid : id ∈ ids) : ∃ ink ∈ strokes, ink.id = id := by
  simp only [hits, bind, Except.bind] at h
  split at h
  · cases h
  split at h
  · cases h
  cases h
  obtain ⟨ink, hink, rfl⟩ := List.mem_map.mp hid
  exact ⟨ink, (List.mem_filter.mp hink).1, rfl⟩

theorem erase_of_not_finite (hp : p.isFinite = false) (strokes : List (Inked α)) (radius : α) :
    erase strokes p radius = .error (.nonFiniteCoordinate p) := by
  unfold erase hits Point.requireFinite
  rw [hp]
  rfl

theorem hits_of_isFinite (hp : p.isFinite = true) (hradius : Scalar.isPositive radius = true)
    (strokes : List (Inked α)) : hits strokes p radius =
      .ok ((strokes.filter fun ink => touches p radius ink.stroke).map Inked.id) := by
  unfold hits Point.requireFinite requireRadius
  rw [hp, hradius]
  rfl

/-- With a radius that is finite and positive the eraser fails at a position only. -/
theorem isOk_erase (hradius : Scalar.isPositive radius = true) (strokes : List (Inked α))
    (p : Point α) : (erase strokes p radius).isOk = p.isFinite := by
  cases hp : p.isFinite with
  | false =>
    rw [erase_of_not_finite hp]
    rfl
  | true =>
    unfold erase
    rw [hits_of_isFinite hp hradius]
    simp only [bind, Except.bind, pure, Except.pure]
    split <;> rfl

/-- The eraser removes something exactly if it is at a finite position and touches a stroke. -/
theorem exists_erase_eq_some_iff (hradius : Scalar.isPositive radius = true) :
    (∃ remaining, erase strokes p radius = .ok (some remaining)) ↔
      p.isFinite = true ∧ ∃ ink ∈ strokes, touches p radius ink.stroke = true := by
  cases hp : p.isFinite with
  | false =>
    rw [erase_of_not_finite hp]
    simp
  | true =>
    unfold erase
    rw [hits_of_isFinite hp hradius]
    simp only [bind, Except.bind, pure, Except.pure, List.isEmpty_iff, List.map_eq_nil_iff,
      List.filter_eq_nil_iff, true_and]
    constructor
    · rintro ⟨remaining, h⟩
      split at h
      next => cases h
      next htouches => simpa using htouches
    · rintro ⟨ink, hink, htouches⟩
      rw [if_neg fun hnone => hnone ink hink htouches]
      exact ⟨_, rfl⟩

/-- What remains is the list without the strokes whose numbers are hit, and some are. -/
theorem of_erase_eq_some (h : erase strokes p radius = .ok (some remaining)) :
    ∃ ids, hits strokes p radius = .ok ids ∧ ids ≠ [] ∧
      remaining = strokes.filter fun ink => !ids.contains ink.id := by
  simp only [erase, bind, Except.bind] at h
  split at h
  · cases h
  next ids hids =>
    split at h
    · cases h
    next hne =>
      cases h
      exact ⟨ids, hids, by simpa using hne, rfl⟩

theorem length_lt_of_erase (h : erase strokes p radius = .ok (some remaining)) :
    remaining.length < strokes.length := by
  obtain ⟨ids, hids, hne, rfl⟩ := of_erase_eq_some h
  obtain ⟨id, hid⟩ := List.exists_mem_of_ne_nil ids hne
  obtain ⟨ink, hink, rfl⟩ := exists_of_mem_hits hids hid
  exact List.length_filter_lt_length_iff_exists.mpr ⟨ink, hink, by simpa using hid⟩

omit [Scalar α] in
/-- Where strokes have different numbers, those that are hit are told by their numbers. -/
theorem filter_hit_ids (hunique : ∀ ink ∈ strokes, ∀ ink' ∈ strokes, ink.id = ink'.id → ink = ink')
    (hit : Inked α → Bool) :
    (strokes.filter fun ink => !((strokes.filter hit).map Inked.id).contains ink.id) =
      strokes.filter fun ink => !hit ink := by
  refine List.filter_congr fun ink hink => congrArg not ?_
  rw [Bool.eq_iff_iff, List.contains_iff_mem, List.mem_map]
  constructor
  · rintro ⟨ink', hink', hid⟩
    obtain ⟨hmem, hhit⟩ := List.mem_filter.mp hink'
    rwa [hunique ink hink ink' hmem hid.symm]
  · intro hhit
    exact ⟨ink, List.mem_filter.mpr ⟨hink, hhit⟩, rfl⟩

theorem erase_of_unique (hp : p.isFinite = true) (hradius : Scalar.isPositive radius = true)
    (hunique : ∀ ink ∈ strokes, ∀ ink' ∈ strokes, ink.id = ink'.id → ink = ink') :
    erase strokes p radius =
      .ok (if strokes.countP (fun ink => touches p radius ink.stroke) = 0 then none
        else some (strokes.filter fun ink => !touches p radius ink.stroke)) := by
  unfold erase
  rw [hits_of_isFinite hp hradius]
  simp only [bind, Except.bind, pure, Except.pure, List.isEmpty_iff, List.map_eq_nil_iff,
    filter_hit_ids hunique, List.countP_eq_length_filter, List.length_eq_zero_iff]
  split <;> rfl

end InkCanvas.Eraser
