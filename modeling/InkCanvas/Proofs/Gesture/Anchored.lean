import InkCanvas.Proofs.Gesture.Turn

/-! # The contacts of a gesture

The contacts that make a gesture are down as long as it goes on (`Arbiter.Anchored`): a gesture starts
with contacts that are down, and ends or goes on without a contact that is released. -/

namespace InkCanvas

variable {α : Type}

/-- The contacts that make the gesture. -/
def Gesture.contacts : Gesture α → List ContactId
  | .idle => []
  | .inking id .. | .panning id .. => [id]
  | .pinching first second .. => [first, second]

namespace Arbiter

/-- The contacts that make the gesture are down. -/
def Anchored (a : Arbiter α) : Prop :=
  ∀ id ∈ a.gesture.contacts, (a.contacts.get? id).isSome = true

theorem anchored_idle {a : Arbiter α} (h : a.gesture = .idle) : a.Anchored := by
  intro id hid
  rw [h] at hid
  cases hid

theorem Anchored.of_contacts_eq {a b : Arbiter α} (h : a.Anchored) (hcontacts : b.contacts = a.contacts)
    (hgesture : b.gesture.contacts = a.gesture.contacts) : b.Anchored := by
  intro id hid
  rw [hgesture] at hid
  rw [hcontacts]
  exact h id hid

theorem Anchored.isSome_get? {a : Arbiter α} (h : a.Anchored) {id : ContactId} {tool : Tool}
    {kept : Point α} {moved : Bool} (hg : a.gesture = .inking id tool kept moved) :
    (a.contacts.get? id).isSome = true := by
  apply h
  rw [hg]
  exact List.mem_singleton_self id

variable [Scalar α] {a : Arbiter α} {c : Contact α} {contacts : Contacts α} {e : Event α}

theorem Anchored.press (h : a.Anchored) (hpress : a.contacts.press e = some (c, contacts)) :
    Anchored { a with contacts } := by
  intro id hid
  rw [Contacts.get?_of_press hpress, Option.isSome_or, h id hid, Bool.true_or]

theorem Anchored.update (h : a.Anchored) (hupdate : a.contacts.update e = some (c, contacts)) :
    Anchored { a with contacts } := by
  intro id hid
  rw [Contacts.get?_of_update hupdate, Option.isSome_map]
  exact h id hid

theorem anchored_startInking (hc : (a.contacts.get? c.id).isSome = true) (e : Event α)
    (view : Viewport α) (tool : Tool) : (a.startInking c e view tool).1.Anchored := by
  intro id hid
  obtain rfl := List.mem_singleton.mp hid
  exact hc

theorem Anchored.startPinch (h : a.Anchored) (first second : ContactId) (view : Viewport α) :
    (a.startPinch first second view).Anchored := by
  unfold Arbiter.startPinch
  split
  next hfirst hsecond =>
    intro id hid
    rcases List.mem_cons.mp hid with rfl | hid
    · exact Option.isSome_of_eq_some hfirst
    · obtain rfl := List.mem_singleton.mp hid
      exact Option.isSome_of_eq_some hsecond
  next => exact h

theorem Anchored.onPen (h : a.Anchored) (hc : (a.contacts.get? c.id).isSome = true) (e : Event α)
    (view : Viewport α) (tool : Tool) : (a.onPen c e view tool).1.Anchored := by
  have hinks := anchored_startInking hc e view tool
  unfold Arbiter.onPen
  split
  next => exact hinks
  next => exact hinks
  next => exact hinks
  next =>
    split
    next =>
      dsimp only
      split <;> exact hinks
    next => exact h

theorem Anchored.onFinger (h : a.Anchored) (hc : (a.contacts.get? c.id).isSome = true) (e : Event α)
    (view : Viewport α) (tool : Tool) : (a.onFinger c e view tool).1.Anchored := by
  unfold Arbiter.onFinger
  split
  next =>
    split
    next => exact h.startPinch _ _ view
    next =>
      split
      next =>
        intro id hid
        obtain rfl := List.mem_singleton.mp hid
        exact hc
      next => exact anchored_startInking hc e view tool
  next => exact h.startPinch _ _ view
  next =>
    split
    next => exact h.startPinch _ _ view
    next => exact h
  next => exact h

theorem Anchored.onMove (h : a.Anchored) (c : Contact α) (e : Event α) (view : Viewport α) :
    (a.onMove c e view).1.Anchored := by
  unfold Arbiter.onMove
  split
  next => exact h
  next hg =>
    split
    next => exact h.of_contacts_eq rfl (by rw [hg]; rfl)
    next => exact h
  next hg =>
    split
    next => exact h.of_contacts_eq rfl (by rw [hg]; rfl)
    next => exact h
  next => split <;> exact h
  next => split <;> exact h

/-- The released contact is down no longer, so only the others have to be. -/
theorem anchored_onRelease
    (h : ∀ id ∈ a.gesture.contacts, id ≠ c.id → (a.contacts.get? id).isSome = true) (e : Event α)
    (view : Viewport α) : (a.onRelease c e view).1.Anchored := by
  have hother (hne : c.id ∉ a.gesture.contacts) : a.Anchored := by
    intro id hid
    apply h id hid
    rintro rfl
    exact hne hid
  unfold Arbiter.onRelease
  split
  next hg => exact anchored_idle hg
  next hg =>
    split
    next => exact anchored_idle rfl
    next hne => exact hother (by rw [hg]; simpa [Gesture.contacts] using Ne.symm hne)
  next hg =>
    dsimp only
    split
    next => exact anchored_idle rfl
    next hne => exact hother (by rw [hg]; simpa [Gesture.contacts] using Ne.symm hne)
  next hg =>
    split
    next =>
      dsimp only
      split
      next hrest =>
        intro id hid
        obtain rfl := List.mem_singleton.mp hid
        exact Option.isSome_of_eq_some hrest
      next => exact anchored_idle rfl
    next hne =>
      obtain ⟨hfirst, hsecond⟩ := not_or.mp hne
      exact hother (by rw [hg]; simp [Gesture.contacts, Ne.symm hfirst, Ne.symm hsecond])

theorem Anchored.handle (h : a.Anchored) (e : Event α) (view : Viewport α) (tool : Tool) :
    (a.handle e view tool).1.Anchored := by
  have hr := a.handled e view tool
  generalize a.handle e view tool = r at hr
  cases hr with
  | ignored => exact h
  | pen _ _ press =>
    have hpressed := Option.isSome_of_eq_some (Contacts.get?_of_press_self press)
    exact (h.press press).onPen hpressed e view tool
  | finger _ _ press =>
    have hpressed := Option.isSome_of_eq_some (Contacts.get?_of_press_self press)
    exact (h.press press).onFinger hpressed e view tool
  | moved _ update => exact (h.update update).onMove _ e view
  | released _ release =>
    refine anchored_onRelease ?_ e view
    intro id hid hne
    rw [Contacts.id_of_release release] at hne
    dsimp only
    rw [Contacts.get?_of_release_of_ne release hne.symm]
    exact h id hid

end Arbiter
end InkCanvas
