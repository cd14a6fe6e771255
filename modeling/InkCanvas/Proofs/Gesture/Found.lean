import InkCanvas.Proofs.Gesture.Makers

/-! # Events find their contacts

A finger that comes down beside another one pinches with it, the fingers of a pinch are found when one of
them moves, and when one is released the other pans on (`Arbiter.Finds`). This holds whatever the arbiter
was told before (`Arbiter.told_sound`), so no gesture is left with a contact that is not down. -/

namespace InkCanvas

variable {α : Type}

namespace Arbiter

variable [Scalar α] {a : Arbiter α} {e : Event α}

/-- The two contacts pinch from where they are. -/
def Pinches (a : Arbiter α) (first second : ContactId) (view : Viewport α) : Prop :=
  ∃ p q, a.contacts.get? first = some p ∧ a.contacts.get? second = some q ∧
    a.gesture = .pinching first second (p.pos.midpoint q.pos) (p.pos.distance q.pos) view

/-- The contact pans from where it is. -/
def Pans (a : Arbiter α) (finger : ContactId) (view : Viewport α) : Prop :=
  ∃ p, a.contacts.get? finger = some p ∧ a.gesture = .panning finger p.pos view

theorem pinches_startPinch {first second : ContactId} {d d' : Device}
    (hfirst : a.contacts.device? first = some d) (hsecond : a.contacts.device? second = some d')
    (view : Viewport α) : (a.startPinch first second view).Pinches first second view := by
  obtain ⟨p, hp⟩ := Contacts.exists_get?_of_device? hfirst
  obtain ⟨q, hq⟩ := Contacts.exists_get?_of_device? hsecond
  unfold startPinch
  simp only [hp, hq]
  exact ⟨p, q, hp, hq, rfl⟩

/-- An event finds the contacts that it is about. -/
structure Finds (a : Arbiter α) (e : Event α) (view : Viewport α)
    (r : Arbiter α × Option (Command α)) : Prop where
  /-- A finger that comes down beside its partner pinches with it. -/
  pinches : e.phase = .start → e.device = .touch → (a.contacts.press e).isSome = true →
    ∀ first, a.partner? e.contact = some first → r.1.Pinches first e.contact view
  /-- Both fingers of a pinch are found when one of them moves. -/
  pinched : ∀ first second mid distance base,
    a.gesture = .pinching first second mid distance base → e.phase = .move →
    e.contact = first ∨ e.contact = second →
    ∃ p q, r.1.contacts.get? first = some p ∧ r.1.contacts.get? second = some q ∧
      r.2 = (base.pinched mid (p.pos.midpoint q.pos)
        (if Scalar.epsilon < distance then p.pos.distance q.pos / distance else 1)).toOption.map .view
  /-- When one finger of a pinch is released, the other pans on from where it is. -/
  pans : ∀ first second mid distance base,
    a.gesture = .pinching first second mid distance base → e.phase.isRelease = true →
    (e.contact = first → r.1.Pans second view) ∧ (e.contact = second → r.1.Pans first view)
  /-- No gesture goes on with a contact that is released. -/
  gone : e.phase.isRelease = true → e.contact ∉ r.1.gesture.contacts

theorem get?_of_isRelease (hphase : e.phase.isRelease = true) (view : Viewport α) (tool : Tool) :
    (a.handle e view tool).1.contacts.get? e.contact = none := by
  cases hd : a.contacts.get? e.contact with
  | none =>
    have hstart : e.phase ≠ .start := by
      intro hstart
      rw [hstart] at hphase
      cases hphase
    rw [handle_of_lost hstart hd]
    exact hd
  | some d =>
    obtain ⟨contacts, hrelease⟩ := Contacts.exists_release_eq hd
    obtain ⟨g, hg⟩ := exists_onRelease_eq { a with contacts } (d.follow e) e view
    rw [handle_of_release hphase hrelease, hg]
    dsimp only
    rw [Contacts.get?_of_release hrelease, if_pos rfl]

theorem Made.pinches_handle (h : a.Made) (hsound : a.contacts.Sound) (hphase : e.phase = .start)
    (hdevice : e.device = .touch) (hpress : (a.contacts.press e).isSome = true) {first : ContactId}
    (hfirst : a.partner? e.contact = some first) (view : Viewport α) (tool : Tool) :
    (a.handle e view tool).1.Pinches first e.contact view := by
  have hnew : e.contact ∉ a.gesture.contacts := by
    intro hmem
    have hdown := h.isSome_get? hmem
    rw [Contacts.get?_eq_none_of_press hpress] at hdown
    cases hdown
  obtain ⟨⟨c, contacts⟩, hpress⟩ := Option.isSome_iff_exists.mp hpress
  obtain rfl := Contacts.eq_ofEvent_of_press hpress
  have hpartner := (h.partner?_of_press hpress).trans hfirst
  obtain ⟨-, hdown⟩ := (h.press hpress).of_partner? (hsound.press hpress) hnew hpartner
  rw [handle_of_finger hphase hdevice hpress,
    onFinger_of_partner? (a := { a with contacts }) (c := .ofEvent e) hpartner]
  exact pinches_startPinch hdown (Contacts.device?_of_press_self hpress) view

theorem Made.pinched_handle (h : a.Made) {first second : ContactId} {mid : Point α} {distance : α}
    {base : Viewport α} (hg : a.gesture = .pinching first second mid distance base)
    (hphase : e.phase = .move) (he : e.contact = first ∨ e.contact = second) (view : Viewport α)
    (tool : Tool) :
    ∃ p q, (a.handle e view tool).1.contacts.get? first = some p ∧
      (a.handle e view tool).1.contacts.get? second = some q ∧
      (a.handle e view tool).2 = (base.pinched mid (p.pos.midpoint q.pos)
        (if Scalar.epsilon < distance then p.pos.distance q.pos / distance else 1)).toOption.map
          .view := by
  have hmem : e.contact ∈ a.gesture.contacts := by
    rw [hg]
    simpa [Gesture.contacts] using he
  obtain ⟨d, hd⟩ := Option.isSome_iff_exists.mp (h.isSome_get? hmem)
  obtain ⟨contacts, hupdate⟩ := Contacts.exists_update_eq hd
  have hid := Contacts.id_of_update hupdate
  have hmade := h.update hupdate
  rw [Made, hg] at hmade
  obtain ⟨-, hfirst, hsecond⟩ := hmade
  obtain ⟨p, hp⟩ := Contacts.exists_get?_of_device? hfirst
  obtain ⟨q, hq⟩ := Contacts.exists_get?_of_device? hsecond
  rw [handle_of_update hphase hupdate]
  have hmoves : first = (d.follow e).id ∨ second = (d.follow e).id := by
    rw [hid]
    exact he.imp Eq.symm Eq.symm
  unfold Arbiter.onMove
  simp only [hg, if_pos hmoves]
  refine ⟨p, q, hp, hq, ?_⟩
  simp only [hp, hq]
  rfl

theorem Made.pans_handle (h : a.Made) {first second : ContactId} {mid : Point α} {distance : α}
    {base : Viewport α} (hg : a.gesture = .pinching first second mid distance base)
    (hphase : e.phase.isRelease = true) (view : Viewport α) (tool : Tool) :
    (e.contact = first → (a.handle e view tool).1.Pans second view) ∧
      (e.contact = second → (a.handle e view tool).1.Pans first view) := by
  have hmade := h
  rw [Made, hg] at hmade
  obtain ⟨hne, hfirst, hsecond⟩ := hmade
  constructor
  · rintro rfl
    obtain ⟨d, hd⟩ := Contacts.exists_get?_of_device? hfirst
    obtain ⟨rest, hrest⟩ := Contacts.exists_get?_of_device? hsecond
    obtain ⟨contacts, hrelease⟩ := Contacts.exists_release_eq hd
    rw [handle_of_release hphase hrelease]
    rw [← Contacts.get?_of_release_of_ne hrelease hne] at hrest
    have hid := Contacts.id_of_release hrelease
    unfold Arbiter.onRelease
    simp only [hg, hid, true_or, if_true, hrest]
    exact ⟨rest, hrest, rfl⟩
  · rintro rfl
    obtain ⟨rest, hrest⟩ := Contacts.exists_get?_of_device? hfirst
    obtain ⟨d, hd⟩ := Contacts.exists_get?_of_device? hsecond
    obtain ⟨contacts, hrelease⟩ := Contacts.exists_release_eq hd
    rw [handle_of_release hphase hrelease]
    rw [← Contacts.get?_of_release_of_ne hrelease (Ne.symm hne)] at hrest
    have hid := Contacts.id_of_release hrelease
    unfold Arbiter.onRelease
    simp only [hg, hid, or_true, if_true, if_neg hne, hrest]
    exact ⟨rest, hrest, rfl⟩

theorem Made.finds (h : a.Made) (hsound : a.contacts.Sound) (e : Event α) (view : Viewport α)
    (tool : Tool) : a.Finds e view (a.handle e view tool) where
  pinches hphase hdevice hpress _ hfirst :=
    h.pinches_handle hsound hphase hdevice hpress hfirst view tool
  pinched _ _ _ _ _ hg hphase he := h.pinched_handle hg hphase he view tool
  pans _ _ _ _ _ hg hphase := h.pans_handle hg hphase view tool
  gone hphase hmem := by
    have hdown := (h.handle hsound e view tool).isSome_get? hmem
    rw [get?_of_isRelease hphase] at hdown
    cases hdown

/-! ## Runs -/

/-- Over every list of signals, with any configuration, viewports and tools: the contacts that are down
have different numbers and are at finite positions; the gesture is made by contacts that are down, by two
different fingers if it is a pinch, and by a pen if it draws or erases where fingers only pan; without a
contact there is no gesture; and every event finds the contacts that it is about. -/
theorem told_sound (c : Config α) (signals : List (Signal α)) :
    let a := (ofConfig c).told signals
    a.contacts.Sound ∧ a.gesture.MadeBy a.contacts c.touchMode ∧
    (a.contacts.down = [] → a.gesture = .idle) ∧
    ∀ e view tool, a.Finds e view (a.handle e view tool) := by
  intro a
  have hstart : (ofConfig c).Made := trivial
  obtain ⟨hsound, hmade⟩ := hstart.told Contacts.sound_none signals
  refine ⟨hsound, ?_, fun hdown => ?_, fun e view tool => hmade.finds hsound e view tool⟩
  · have hrules : a.rules = c.gestureRules := (ofConfig c).rules_told signals
    rw [Made, hrules] at hmade
    exact hmade
  · have hnone (id : ContactId) (hid : id ∈ a.gesture.contacts) : False := by
      have hfound := hmade.isSome_get? hid
      rw [Contacts.get?, hdown] at hfound
      cases hfound
    cases hg : a.gesture with
    | idle => rfl
    | inking | panning | pinching =>
      rw [hg] at hnone
      exact (hnone _ List.mem_cons_self).elim

/-- Two fingers pinch. When the first one is released the other pans, and when then a pen, with the same
number as the released finger, has drawn, the other one pinches with a new finger. -/
theorem told_sound_of_reused_number :
    let view : Viewport Float := .withBounds Config.standard.minScale Config.standard.maxScale
    let event (id : ContactId) (device : Device) (phase : Phase) (x : Float) : Event Float :=
      ⟨id, device, phase, ⟨x, 0⟩, 0, none⟩
    let after (events : List (Event Float)) : Arbiter Float :=
      (ofConfig Config.standard).told (events.map fun e => .cue ⟨e, view, .pen⟩)
    let fingers := [event 1 .touch .start 0, event 2 .touch .start 50]
    let pen := [event 1 .touch .lift 0, event 1 .stylus .start 9, event 1 .stylus .lift 9]
    ((after fingers).handle (event 1 .touch .lift 0) view .pen).1.Pans 2 view ∧
      ((after (fingers ++ pen)).handle (event 3 .touch .start 90) view .pen).1.Pinches 2 3 view := by
  intro view event after fingers pen
  have hfinds (events : List (Event Float)) (e : Event Float) :
      (after events).Finds e view ((after events).handle e view .pen) :=
    (told_sound Config.standard _).2.2.2 e view .pen
  constructor
  · have hsecond := (hfinds [event 1 .touch .start 0] (event 2 .touch .start 50)).pinches rfl rfl
      (by decide +kernel) 1 (by decide +kernel)
    obtain ⟨p, q, -, -, hpinches⟩ := hsecond
    exact ((hfinds fingers (event 1 .touch .lift 0)).pans 1 2 _ _ _ hpinches rfl).1 rfl
  · exact (hfinds (fingers ++ pen) (event 3 .touch .start 90)).pinches rfl rfl
      (by decide +kernel) 2 (by decide +kernel)

end Arbiter
end InkCanvas
