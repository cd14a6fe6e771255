import InkCanvas.Proofs.Gesture.Anchored
import InkCanvas.Proofs.Gesture.Bracket
import InkCanvas.Proofs.Gesture.Inking
import Mathlib.Data.List.Nodup

/-! # Which contacts make a gesture

The contacts that are down have different numbers and are at finite positions (`Contacts.Sound`), and
each gesture is made by contacts that are down, of the devices that make such a gesture
(`Gesture.MadeBy`). Every event keeps the two (`Arbiter.sound_handle`, `Arbiter.Made.handle`), and so does
everything that an arbiter may be told (`Arbiter.Made.told`). -/

namespace InkCanvas

variable {α : Type}

/-! ## Numbers, positions and devices -/

namespace Contacts

/-- The device of the contact with a number. -/
def device? (t : Contacts α) (id : ContactId) : Option Device := (t.get? id).map Contact.device

variable {t contacts : Contacts α} {c : Contact α}

theorem isFinger_iff {id : ContactId} : t.isFinger id = true ↔ t.device? id = some .touch := by
  unfold isFinger device?
  cases t.get? id <;> simp

theorem exists_get?_of_device? {id : ContactId} {d : Device} (h : t.device? id = some d) :
    ∃ c, t.get? id = some c := by
  obtain ⟨c, hc, -⟩ := Option.map_eq_some_iff.mp h
  exact ⟨c, hc⟩

theorem get?_eq_some_of_mem (hnodup : (t.down.map Contact.id).Nodup) (hc : c ∈ t.down) :
    t.get? c.id = some c := by
  cases hd : t.get? c.id with
  | none =>
    have hne := List.find?_eq_none.mp hd c hc
    exact absurd (beq_self_eq_true c.id) hne
  | some d =>
    obtain ⟨hmem, hid⟩ := mem_of_get?_eq_some hd
    rw [List.inj_on_of_nodup_map hnodup hmem hc hid]

variable [Scalar α] {e : Event α}

/-- The contacts have different numbers and are at finite positions. -/
structure Sound (t : Contacts α) : Prop where
  nodup : (t.down.map Contact.id).Nodup
  finite : ∀ c ∈ t.down, c.pos.isFinite = true

theorem sound_none : (none : Contacts α).Sound := ⟨List.nodup_nil, nofun⟩

theorem Sound.press (h : t.Sound) (hpress : t.press e = some (c, contacts)) : contacts.Sound := by
  have hfree := get?_eq_none_of_press (Option.isSome_of_eq_some hpress)
  unfold Contacts.press at hpress
  split at hpress
  next hfinite =>
    cases hpress
    constructor
    · rw [List.map_append, List.map_singleton, ← List.concat_eq_append, List.nodup_concat]
      refine ⟨fun hmem => ?_, h.nodup⟩
      obtain ⟨d, hd, hid⟩ := List.mem_map.mp hmem
      have hne := List.find?_eq_none.mp hfree d hd
      exact hne (beq_iff_eq.mpr hid)
    · rw [List.forall_mem_append, List.forall_mem_singleton]
      exact ⟨h.finite, (Bool.and_eq_true_iff.mp hfinite).1⟩
  next => cases hpress

theorem Sound.update (h : t.Sound) (hupdate : t.update e = some (c, contacts)) :
    contacts.Sound := by
  obtain ⟨d, -, hd⟩ := Option.map_eq_some_iff.mp hupdate
  cases hd
  have hids : (t.down.map fun d => if d.id == e.contact then d.follow e else d).map Contact.id =
      t.down.map Contact.id := by
    rw [List.map_map]
    refine List.map_congr_left fun d _ => ?_
    rw [Function.comp_apply]
    split <;> rfl
  constructor
  · rw [hids]
    exact h.nodup
  · rw [List.forall_mem_map]
    intro d hd
    have hfinite := h.finite d hd
    split
    next =>
      unfold Contact.follow
      dsimp only
      split
      next hevent => exact hevent
      next => exact hfinite
    next => exact hfinite

theorem Sound.release (h : t.Sound) (hrelease : t.release e = some (c, contacts)) :
    contacts.Sound := by
  obtain ⟨d, -, hd⟩ := Option.map_eq_some_iff.mp hrelease
  cases hd
  constructor
  · exact h.nodup.sublist (List.filter_sublist.map Contact.id)
  · intro d hd
    exact h.finite d (List.mem_of_mem_filter hd)

theorem device?_of_press_self (h : t.press e = some (c, contacts)) :
    contacts.device? e.contact = some e.device := by
  rw [device?, get?_of_press_self h]
  rfl

theorem device?_of_press {id : ContactId} {d : Device} (h : t.press e = some (c, contacts))
    (hd : t.device? id = some d) : contacts.device? id = some d := by
  obtain ⟨b, hb⟩ := exists_get?_of_device? hd
  rw [device?, get?_of_press_of_eq_some h hb, ← hb]
  exact hd

theorem device?_of_update (h : t.update e = some (c, contacts)) (id : ContactId) :
    contacts.device? id = t.device? id := by
  rw [device?, get?_of_update h, Option.map_map, device?]
  congr 1
  funext d
  rw [Function.comp_apply]
  split <;> rfl

theorem device?_of_release {id : ContactId} (h : t.release e = some (c, contacts))
    (hid : e.contact ≠ id) : contacts.device? id = t.device? id := by
  rw [device?, get?_of_release_of_ne h hid, device?]

end Contacts

/-! ## Who makes a gesture -/

/-- The gesture is made by contacts that are down: a pen or, where fingers draw, a finger inks, a finger
pans, and two fingers pinch. -/
def Gesture.MadeBy (t : Contacts α) (mode : TouchMode) : Gesture α → Prop
  | .idle => True
  | .inking id .. =>
    t.device? id = some .stylus ∨ mode = .drawWithFinger ∧ t.device? id = some .touch
  | .panning finger .. => t.device? finger = some .touch
  | .pinching first second .. =>
    first ≠ second ∧ t.device? first = some .touch ∧ t.device? second = some .touch

/-- Who makes a gesture is a matter of the devices of its contacts. -/
theorem Gesture.MadeBy.of_device? {t t' : Contacts α} {mode : TouchMode} {g : Gesture α}
    (h : g.MadeBy t mode)
    (hsame : ∀ id ∈ g.contacts, ∀ d, t.device? id = some d → t'.device? id = some d) :
    g.MadeBy t' mode := by
  cases g with
  | idle => trivial
  | inking id =>
    have hid := hsame id (List.mem_singleton_self id)
    rcases h with hpen | ⟨hmode, hfinger⟩
    · exact .inl (hid .stylus hpen)
    · exact .inr ⟨hmode, hid .touch hfinger⟩
  | panning finger => exact hsame finger (List.mem_singleton_self finger) .touch h
  | pinching first second =>
    obtain ⟨hne, hfirst, hsecond⟩ := h
    exact ⟨hne, hsame first (by simp [contacts]) .touch hfirst,
      hsame second (by simp [contacts]) .touch hsecond⟩

theorem Gesture.MadeBy.isSome_get? {t : Contacts α} {mode : TouchMode} {g : Gesture α}
    (h : g.MadeBy t mode) {id : ContactId} (hid : id ∈ g.contacts) : (t.get? id).isSome = true := by
  have hdown {id : ContactId} {d : Device} (hd : t.device? id = some d) :
      (t.get? id).isSome = true := by
    obtain ⟨c, hc⟩ := Contacts.exists_get?_of_device? hd
    exact Option.isSome_of_eq_some hc
  cases g with
  | idle => cases hid
  | inking =>
    obtain rfl := List.mem_singleton.mp hid
    rcases h with hpen | ⟨-, hfinger⟩
    · exact hdown hpen
    · exact hdown hfinger
  | panning =>
    obtain rfl := List.mem_singleton.mp hid
    exact hdown h
  | pinching first second =>
    obtain ⟨-, hfirst, hsecond⟩ := h
    rcases List.mem_cons.mp hid with rfl | hid
    · exact hdown hfirst
    · obtain rfl := List.mem_singleton.mp hid
      exact hdown hsecond

namespace Arbiter

/-- The gesture of the arbiter is made by contacts that are down. -/
def Made (a : Arbiter α) : Prop := a.gesture.MadeBy a.contacts a.rules.touchMode

variable [Scalar α] {a : Arbiter α} {c : Contact α} {contacts : Contacts α} {e : Event α}

theorem Made.press (h : a.Made) (hpress : a.contacts.press e = some (c, contacts)) :
    Made { a with contacts } :=
  h.of_device? fun _ _ _ hd => Contacts.device?_of_press hpress hd

theorem Made.update (h : a.Made) (hupdate : a.contacts.update e = some (c, contacts)) :
    Made { a with contacts } :=
  h.of_device? fun id _ _ hd => (Contacts.device?_of_update hupdate id).trans hd

theorem Made.release (h : a.Made) (hrelease : a.contacts.release e = some (c, contacts))
    (hother : e.contact ∉ a.gesture.contacts) : Made { a with contacts } := by
  apply h.of_device?
  intro id hid d hd
  have hne : e.contact ≠ id := by
    rintro rfl
    exact hother hid
  exact (Contacts.device?_of_release hrelease hne).trans hd

theorem Made.startPinch (h : a.Made) {first second : ContactId} (hne : first ≠ second)
    (hfirst : a.contacts.device? first = some .touch)
    (hsecond : a.contacts.device? second = some .touch) (view : Viewport α) :
    (a.startPinch first second view).Made := by
  unfold Arbiter.startPinch
  split
  next => exact ⟨hne, hfirst, hsecond⟩
  next => exact h

theorem Made.onPen (h : a.Made) (hc : a.contacts.device? c.id = some .stylus) (e : Event α)
    (view : Viewport α) (tool : Tool) : (a.onPen c e view tool).1.Made := by
  have hinks : (a.startInking c e view tool).1.Made := .inl hc
  unfold Arbiter.onPen
  split
  next => exact hinks
  next => exact hinks
  next => exact hinks
  next =>
    split
    next =>
      dsimp only
      split <;> exact hinks
    next => exact h

theorem Made.onMove (h : a.Made) (c : Contact α) (e : Event α) (view : Viewport α) :
    (a.onMove c e view).1.Made := by
  have hink {id : ContactId} {tool : Tool} {kept pos : Point α} {moved moved' : Bool}
      (hg : a.gesture = .inking id tool kept moved) :
      Made { a with gesture := .inking id tool pos moved' } := by
    rw [Made, hg] at h
    exact h
  unfold Arbiter.onMove
  split
  next => exact h
  next hg =>
    split
    next => exact hink hg
    next => exact h
  next hg =>
    split
    next => exact hink hg
    next => exact h
  next => split <;> exact h
  next => split <;> exact h

/-! ## The finger that a new one pinches with -/

/-- The finger that a new one pinches with. -/
def partner? (a : Arbiter α) (id : ContactId) : Option ContactId :=
  match a.gesture with
  | .idle => a.restingFinger? id
  | .panning finger .. => some finger
  | .inking drawing _ _ moved =>
    if !moved && a.contacts.isFinger drawing then some drawing else none
  | .pinching .. => none

theorem device?_of_restingFinger? (hsound : a.contacts.Sound) {id finger : ContactId}
    (h : a.restingFinger? id = some finger) :
    finger ≠ id ∧ a.contacts.device? finger = some .touch := by
  have hne := List.find?_some h
  obtain ⟨d, hd, rfl⟩ := List.mem_map.mp (List.mem_of_find?_eq_some h)
  obtain ⟨hdown, hdevice⟩ := List.mem_filter.mp hd
  refine ⟨by simpa using hne, ?_⟩
  rw [Contacts.device?, Contacts.get?_eq_some_of_mem hsound.nodup hdown]
  simpa using hdevice

theorem Made.of_partner? (h : a.Made) (hsound : a.contacts.Sound) {id first : ContactId}
    (hnew : id ∉ a.gesture.contacts) (hfirst : a.partner? id = some first) :
    first ≠ id ∧ a.contacts.device? first = some .touch := by
  have hne (hmem : first ∈ a.gesture.contacts) : first ≠ id := by
    rintro rfl
    exact hnew hmem
  unfold partner? at hfirst
  split at hfirst
  next => exact device?_of_restingFinger? hsound hfirst
  next hg =>
    obtain rfl := Option.some.inj hfirst
    rw [Made, hg] at h
    exact ⟨hne (by rw [hg]; exact List.mem_singleton_self _), h⟩
  next hg =>
    obtain ⟨hresting, hdrawing⟩ := Option.ite_none_right_eq_some.mp hfirst
    obtain rfl := Option.some.inj hdrawing
    have hfinger := Contacts.isFinger_iff.mp (Bool.and_eq_true_iff.mp hresting).2
    exact ⟨hne (by rw [hg]; exact List.mem_singleton_self _), hfinger⟩
  next => cases hfirst

theorem onFinger_of_partner? {first : ContactId} (hfirst : a.partner? c.id = some first)
    (e : Event α) (view : Viewport α) (tool : Tool) :
    (a.onFinger c e view tool).1 = a.startPinch first c.id view := by
  cases hg : a.gesture with
  | idle =>
    simp only [partner?, hg] at hfirst
    simp only [Arbiter.onFinger, hg, hfirst]
  | panning =>
    simp only [partner?, hg, Option.some.injEq] at hfirst
    simp only [Arbiter.onFinger, hg, hfirst]
  | inking =>
    simp only [partner?, hg] at hfirst
    obtain ⟨hresting, hdrawing⟩ := Option.ite_none_right_eq_some.mp hfirst
    obtain rfl := Option.some.inj hdrawing
    simp only [Arbiter.onFinger, hg, hresting, if_true]
  | pinching =>
    simp only [partner?, hg] at hfirst
    cases hfirst

theorem Made.onFinger (h : a.Made) (hsound : a.contacts.Sound)
    (hc : a.contacts.device? c.id = some .touch) (hnew : c.id ∉ a.gesture.contacts) (e : Event α)
    (view : Viewport α) (tool : Tool) : (a.onFinger c e view tool).1.Made := by
  cases hpartner : a.partner? c.id with
  | some first =>
    rw [onFinger_of_partner? hpartner]
    obtain ⟨hne, hfirst⟩ := h.of_partner? hsound hnew hpartner
    exact h.startPinch hne hfirst hc view
  | none =>
    unfold partner? at hpartner
    unfold Arbiter.onFinger
    split
    next hg =>
      simp only [hg] at hpartner
      rw [hpartner]
      dsimp only
      split
      next => exact hc
      next hmode => exact .inr ⟨hmode, hc⟩
    next hg =>
      simp only [hg] at hpartner
      cases hpartner
    next hg =>
      split
      next hresting =>
        simp only [hg, hresting, if_true] at hpartner
        cases hpartner
      next => exact h
    next => exact h

theorem restingFinger?_of_press (hpress : a.contacts.press e = some (c, contacts)) :
    restingFinger? { a with contacts } e.contact = a.restingFinger? e.contact := by
  have hdown : contacts.down = a.contacts.down ++ [.ofEvent e] := by
    unfold Contacts.press at hpress
    split at hpress
    · cases hpress; rfl
    · cases hpress
  have hself : (List.map Contact.id (List.filter (·.device == .touch) [Contact.ofEvent e])).find?
      (· != e.contact) = none := by
    rw [List.find?_eq_none]
    intro id hid
    obtain ⟨d, hd, rfl⟩ := List.mem_map.mp hid
    obtain rfl := List.mem_singleton.mp (List.mem_of_mem_filter hd)
    simp [Contact.ofEvent]
  unfold restingFinger? Contacts.ofDevice
  rw [hdown, List.filter_append, List.map_append, List.find?_append, hself, Option.or_none]

theorem Made.partner?_of_press (h : a.Made) (hpress : a.contacts.press e = some (c, contacts)) :
    partner? { a with contacts } e.contact = a.partner? e.contact := by
  unfold partner?
  dsimp only
  split
  next => exact restingFinger?_of_press hpress
  next => rfl
  next drawing _ _ _ hg =>
    have hmem : drawing ∈ a.gesture.contacts := by
      rw [hg]
      exact List.mem_singleton_self drawing
    obtain ⟨d, hd⟩ := Option.isSome_iff_exists.mp (h.isSome_get? hmem)
    rw [Contacts.isFinger, Contacts.get?_of_press_of_eq_some hpress hd, ← hd, ← Contacts.isFinger]
  next => rfl

/-! ## One event -/

theorem Made.onRelease (h : a.Made) (hrelease : a.contacts.release e = some (c, contacts))
    (view : Viewport α) : (onRelease { a with contacts } c e view).1.Made := by
  have hid := Contacts.id_of_release hrelease
  have hkept (hother : c.id ∉ a.gesture.contacts) : Made { a with contacts } := by
    rw [hid] at hother
    exact h.release hrelease hother
  unfold Arbiter.onRelease
  dsimp only
  split
  next hg => exact hkept (by rw [hg]; nofun)
  next hg =>
    split
    next => trivial
    next hne => exact hkept (by rw [hg]; simpa [Gesture.contacts] using Ne.symm hne)
  next hg =>
    split
    next => trivial
    next hne => exact hkept (by rw [hg]; simpa [Gesture.contacts] using Ne.symm hne)
  next first second _ _ _ hg =>
    split
    next =>
      rw [Made, hg] at h
      obtain ⟨hne, hfirst, hsecond⟩ := h
      split
      next =>
        show contacts.device? _ = some .touch
        split
        next heq =>
          rw [Contacts.device?_of_release hrelease (by rw [← hid, ← heq]; exact hne)]
          exact hsecond
        next hfirst_ne =>
          rw [Contacts.device?_of_release hrelease (by rw [← hid]; exact Ne.symm hfirst_ne)]
          exact hfirst
      next => trivial
    next hne =>
      obtain ⟨hfirst, hsecond⟩ := not_or.mp hne
      exact hkept (by rw [hg]; simp [Gesture.contacts, Ne.symm hfirst, Ne.symm hsecond])

theorem Made.handle (h : a.Made) (hsound : a.contacts.Sound) (e : Event α) (view : Viewport α)
    (tool : Tool) : (a.handle e view tool).1.Made := by
  have hr := a.handled e view tool
  generalize a.handle e view tool = r at hr
  cases hr with
  | ignored => exact h
  | pen _ device press =>
    have hpen := Contacts.device?_of_press_self press
    rw [device] at hpen
    exact (h.press press).onPen hpen e view tool
  | finger _ device press =>
    have hfinger := Contacts.device?_of_press_self press
    rw [device] at hfinger
    have hfree := Contacts.get?_eq_none_of_press (Option.isSome_of_eq_some press)
    refine (h.press press).onFinger (hsound.press press) hfinger ?_ e view tool
    intro hmem
    have hdown := h.isSome_get? hmem
    rw [show (Contact.ofEvent e).id = e.contact from rfl, hfree] at hdown
    cases hdown
  | moved _ update => exact (h.update update).onMove _ e view
  | released _ release => exact h.onRelease release view

theorem sound_handle (hsound : a.contacts.Sound) (e : Event α) (view : Viewport α) (tool : Tool) :
    (a.handle e view tool).1.contacts.Sound := by
  have hr := a.handled e view tool
  generalize a.handle e view tool = r at hr
  cases hr with
  | ignored => exact hsound
  | @pen contacts _ _ press =>
    obtain ⟨g, hg⟩ := exists_onPen_eq { a with contacts } (.ofEvent e) e view tool
    rw [hg]
    exact hsound.press press
  | @finger contacts _ _ press =>
    obtain ⟨g, hg⟩ := exists_onFinger_eq { a with contacts } (.ofEvent e) e view tool
    rw [hg]
    exact hsound.press press
  | @moved c contacts _ update =>
    obtain ⟨g, hg⟩ := exists_onMove_eq { a with contacts } c e view
    rw [hg]
    exact hsound.update update
  | @released c contacts _ release =>
    obtain ⟨g, hg⟩ := exists_onRelease_eq { a with contacts } c e view
    rw [hg]
    exact hsound.release release

/-! ## Runs -/

theorem rules_told (a : Arbiter α) (signals : List (Signal α)) : (a.told signals).rules = a.rules := by
  induction signals generalizing a with
  | nil => rfl
  | cons signal rest ih =>
    refine (ih (a.respond signal).1).trans ?_
    cases signal with
    | cue q => exact a.rules_handle q.event q.view q.tool
    | interruption => rfl

theorem Made.told (h : a.Made) (hsound : a.contacts.Sound) (signals : List (Signal α)) :
    (a.told signals).contacts.Sound ∧ (a.told signals).Made := by
  induction signals generalizing a with
  | nil => exact ⟨hsound, h⟩
  | cons signal rest ih =>
    cases signal with
    | cue q => exact ih (h.handle hsound q.event q.view q.tool) (sound_handle hsound q.event q.view q.tool)
    | interruption => exact ih trivial Contacts.sound_none

end Arbiter
end InkCanvas
