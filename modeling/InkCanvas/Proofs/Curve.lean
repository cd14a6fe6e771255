import InkCanvas.Path.Trail
import InkCanvas.Path.Cache
import InkCanvas.Proofs.Draft

/-! # Curves that grow and curves that are kept

The curve that grows beside a stroke is the curve of the stroke (`Live.Traced`): both take the same
positions, and a refused sample reaches neither. A cache answers by number: what it is told to retain
it still finds, and nothing else (`PathCache.get?_retain`). -/

namespace InkCanvas

variable {α : Type} [Scalar α]

/-! ## The stroke being drawn -/

namespace Live

/-- The trail leads through the positions of the stroke. -/
def Traced (l : Live α) : Prop :=
  l.trail = l.stroke.positions.foldl Trail.add (.ofWidth l.stroke.style.width)

variable {l m : Live α}

theorem Traced.path (h : l.Traced) : l.trail.path = l.stroke.path := by
  rw [h]
  rfl

theorem of_start {first : Sample α} {settings : Settings α} (h : start first settings = .ok l) :
    Stroke.start first settings.style settings.tool = .ok l.stroke ∧
      l.trail = (Trail.ofWidth settings.style.width).add first.pos := by
  simp only [start, bind, Except.bind] at h
  split at h
  · cases h
  next hstroke =>
    obtain rfl := Except.ok.inj h
    exact ⟨hstroke, rfl⟩

theorem of_extend {next : Sample α} (h : l.extend next = .ok m) :
    l.stroke.extend next = .ok m.stroke ∧ m.trail = l.trail.add next.pos := by
  simp only [extend, bind, Except.bind] at h
  split at h
  · cases h
  next hstroke =>
    obtain rfl := Except.ok.inj h
    exact ⟨hstroke, rfl⟩

theorem traced_of_start {first : Sample α} {settings : Settings α}
    (h : start first settings = .ok l) : l.Traced := by
  obtain ⟨hstroke, htrail⟩ := of_start h
  have hinks : l.stroke = _ := Stroke.eq_of_start hstroke
  rw [Traced, htrail, hinks]
  rfl

theorem Traced.extend {next : Sample α} (h : l.Traced) (hext : l.extend next = .ok m) :
    m.Traced := by
  obtain ⟨hstroke, htrail⟩ := of_extend hext
  obtain ⟨hsamples, hstyle, -⟩ := Stroke.samples_of_extend hstroke
  have hpositions : m.stroke.positions = l.stroke.positions ++ [next.pos] := by
    rw [Stroke.positions, hsamples, List.map_append]
    rfl
  rw [Traced, htrail, h, hpositions, hstyle, List.foldl_append]
  rfl

end Live

/-! ## Kept curves -/

namespace PathCache

omit [Scalar α]

variable {c : PathCache α} {id i : Nat}

theorem mem_ids_iff : id ∈ c.ids ↔ (c.get? id).isSome := by
  rw [get?, List.lookup_isSome_iff, ids, List.mem_map]
  constructor
  · rintro ⟨entry, hentry, rfl⟩
    exact ⟨entry, hentry, beq_self_eq_true _⟩
  · rintro ⟨entry, hentry, heq⟩
    exact ⟨entry, hentry, (eq_of_beq heq).symm⟩

/-- What is listed is found as before, and nothing else is. -/
theorem get?_retain (c : PathCache α) (live : List Nat) (id : Nat) :
    (c.retain live).get? id = if id ∈ live then c.get? id else none := by
  obtain ⟨entries⟩ := c
  simp only [retain, get?, Std.HashSet.contains_ofList]
  induction entries with
  | nil => simp
  | cons entry entries ih =>
    obtain ⟨i, path⟩ := entry
    rw [List.filter_cons, List.lookup_cons]
    by_cases heq : id = i
    · subst heq
      split
      next hlive =>
        have hmem : id ∈ live := by simpa using hlive
        simp [hmem]
      next hlive =>
        have hmem : id ∉ live := by simpa using hlive
        rw [ih, if_neg hmem, if_neg hmem]
    · have hne : (id == i) = false := beq_false_of_ne heq
      split
      next => rw [List.lookup_cons, hne, ih]
      next => rw [ih, hne]

theorem mem_ids_retain {live : List Nat} : id ∈ (c.retain live).ids ↔ id ∈ c.ids ∧ id ∈ live := by
  rw [mem_ids_iff, mem_ids_iff, get?_retain]
  split <;> simp_all

theorem nodup_ids_retain (h : c.ids.Nodup) (live : List Nat) : (c.retain live).ids.Nodup := by
  have hsub : (c.retain live).ids.Sublist c.ids := List.filter_sublist.map Prod.fst
  exact h.sublist hsub

variable [Scalar α]

/-- A stroke under a new number is found with its own curve, and all others as before. -/
theorem get?_getOrBuild (h : c.get? id = none) (s : Stroke α) (i : Nat) :
    (c.getOrBuild id s).2.get? i = if i = id then some s.path else c.get? i := by
  have hbuilt : (c.getOrBuild id s).2 = ⟨(id, s.path) :: c.entries⟩ := by
    rw [getOrBuild, h]
  rw [hbuilt, get?, List.lookup_cons]
  by_cases heq : i = id
  · simp [heq]
  · simp [heq, beq_false_of_ne heq, get?]

theorem nodup_ids_getOrBuild (h : c.ids.Nodup) (id : Nat) (s : Stroke α) :
    (c.getOrBuild id s).2.ids.Nodup := by
  unfold getOrBuild
  split
  next => exact h
  next hnone =>
    have hnot : id ∉ c.ids := by
      rw [mem_ids_iff, hnone]
      simp
    exact List.nodup_cons.mpr ⟨hnot, h⟩

end PathCache

end InkCanvas
