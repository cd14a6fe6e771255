import InkCanvas.Gesture.Contacts

/-! # Looking contacts up

What a press, an update and a release do to the contact with a given number. An event touches only
the contact that it names. -/

namespace InkCanvas
namespace Contacts

variable {α : Type} [Scalar α] {t contacts : Contacts α} {c : Contact α} {e : Event α}

/-- A contact that is not down yet can be pressed at any finite position. -/
theorem press_of_isFinite (hfinite : e.pos.isFinite = true) (hfree : t.get? e.contact = .none) :
    t.press e = some (.ofEvent e, ⟨t.down ++ [.ofEvent e]⟩) := by
  simp [press, hfinite, hfree]

theorem eq_ofEvent_of_press (h : t.press e = some (c, contacts)) : c = .ofEvent e := by
  unfold press at h
  split at h
  · cases h; rfl
  · cases h

theorem get?_eq_none_of_press (h : (t.press e).isSome = true) : t.get? e.contact = .none := by
  unfold press at h
  split at h
  next hfree => simpa using (Bool.and_eq_true_iff.mp hfree).2
  next => cases h

theorem get?_of_press (h : t.press e = some (c, contacts)) (id : ContactId) :
    contacts.get? id = (t.get? id).or (if e.contact = id then some (.ofEvent e) else .none) := by
  unfold press at h
  split at h
  next =>
    cases h
    simp only [get?, List.find?_append]
    congr 1
    by_cases hid : e.contact = id
    · simp [hid, Contact.ofEvent]
    · simp [hid, Contact.ofEvent]
  next => cases h

/-- A press leaves the contacts that are down alone. -/
theorem get?_of_press_of_eq_some {id : ContactId} {d : Contact α} (h : t.press e = some (c, contacts))
    (hd : t.get? id = some d) : contacts.get? id = some d := by
  rw [get?_of_press h, hd, Option.some_or]

theorem get?_of_press_self (h : t.press e = some (c, contacts)) :
    contacts.get? e.contact = some (.ofEvent e) := by
  rw [get?_of_press h, if_pos rfl, get?_eq_none_of_press (Option.isSome_of_eq_some h),
    Option.none_or]

theorem eq_follow_of_update (h : t.update e = some (c, contacts)) :
    ∃ d, t.get? e.contact = some d ∧ c = d.follow e := by
  obtain ⟨d, hget, hd⟩ := Option.map_eq_some_iff.mp h
  cases hd
  exact ⟨d, hget, rfl⟩

theorem eq_follow_of_release (h : t.release e = some (c, contacts)) :
    ∃ d, t.get? e.contact = some d ∧ c = d.follow e := by
  obtain ⟨d, hget, hd⟩ := Option.map_eq_some_iff.mp h
  cases hd
  exact ⟨d, hget, rfl⟩

theorem exists_update_eq (h : t.get? e.contact = some c) :
    ∃ contacts, t.update e = some (c.follow e, contacts) := ⟨_, congrArg (Option.map _) h⟩

theorem exists_release_eq (h : t.get? e.contact = some c) :
    ∃ contacts, t.release e = some (c.follow e, contacts) := ⟨_, congrArg (Option.map _) h⟩

theorem get?_of_update (h : t.update e = some (c, contacts)) (id : ContactId) :
    contacts.get? id =
      (t.get? id).map fun d => if d.id == e.contact then d.follow e else d := by
  obtain ⟨d, -, hd⟩ := Option.map_eq_some_iff.mp h
  cases hd
  simp only [get?, List.find?_map]
  congr 2
  funext d
  simp only [Function.comp_apply]
  split
  · rw [(d.identity_follow e).1]
  · rfl

theorem get?_of_release (h : t.release e = some (c, contacts)) (id : ContactId) :
    contacts.get? id = if id = e.contact then .none else t.get? id := by
  obtain ⟨d, -, hd⟩ := Option.map_eq_some_iff.mp h
  cases hd
  simp only [get?, List.find?_filter]
  split
  next hid => exact List.find?_eq_none.mpr fun d _ => by simp [hid]
  next hid =>
    congr 1
    funext d
    by_cases hd : d.id = id
    · simp [hd, hid]
    · simp [hd]

/-! ## Other contacts -/

/-- A pen that comes down makes no other contact a finger. -/
theorem isFinger_of_press (h : t.press e = some (c, contacts)) (hpen : e.device = .stylus)
    (id : ContactId) : contacts.isFinger id = t.isFinger id := by
  unfold isFinger
  rw [get?_of_press h id]
  cases hid : t.get? id with
  | some d => rfl
  | none =>
    rw [Option.none_or]
    split
    · simp [Contact.ofEvent, hpen]
    · rfl

theorem id_of_update (h : t.update e = some (c, contacts)) : c.id = e.contact := by
  obtain ⟨d, hget, rfl⟩ := eq_follow_of_update h
  exact (mem_of_get?_eq_some hget).2

theorem id_of_release (h : t.release e = some (c, contacts)) : c.id = e.contact := by
  obtain ⟨d, hget, rfl⟩ := eq_follow_of_release h
  exact (mem_of_get?_eq_some hget).2

theorem isFinger_of_press_of_isFinger {id : ContactId} (h : t.press e = some (c, contacts))
    (hid : t.isFinger id = true) : contacts.isFinger id = true := by
  unfold isFinger at hid ⊢
  cases hd : t.get? id with
  | some d =>
    rw [get?_of_press_of_eq_some h hd]
    rwa [hd] at hid
  | none =>
    rw [hd] at hid
    cases hid

omit [Scalar α] in
theorem isSome_get?_of_isFinger {id : ContactId} (h : t.isFinger id = true) :
    (t.get? id).isSome = true := by
  unfold isFinger at h
  cases hid : t.get? id with
  | some d => rfl
  | none =>
    rw [hid] at h
    cases h

theorem get?_of_press_of_ne {id : ContactId} (h : t.press e = some (c, contacts))
    (hid : e.contact ≠ id) : contacts.get? id = t.get? id := by
  rw [get?_of_press h id, if_neg hid, Option.or_none]

theorem get?_of_update_of_ne {id : ContactId} (h : t.update e = some (c, contacts))
    (hid : e.contact ≠ id) : contacts.get? id = t.get? id := by
  rw [get?_of_update h id]
  cases hd : t.get? id with
  | none => rfl
  | some d =>
    have hne : d.id ≠ e.contact := by rw [(mem_of_get?_eq_some hd).2]; exact Ne.symm hid
    simp [hne]

theorem get?_of_release_of_ne {id : ContactId} (h : t.release e = some (c, contacts))
    (hid : e.contact ≠ id) : contacts.get? id = t.get? id := by
  rw [get?_of_release h id, if_neg (Ne.symm hid)]

end Contacts
end InkCanvas
