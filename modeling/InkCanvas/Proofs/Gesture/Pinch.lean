import InkCanvas.Proofs.Gesture.Turn

/-! # Two fingers pinch

The first of two fingers pans, draws or erases (`Arbiter.handle_lone_finger`), and until it moves it awaits
the other one. The two then pinch (`Arbiter.Awaits.handle`), and their moves ask for nothing but another
viewport (`Arbiter.handle_move_of_pinch`). -/

namespace InkCanvas

variable {α : Type} [Scalar α]

/-- A finger comes down at a finite position. -/
structure Event.FingerDown (e : Event α) : Prop where
  device : e.device = .touch
  phase : e.phase = .start
  finite : e.pos.isFinite = true

namespace Arbiter

omit [Scalar α] in
/-- A finger that is down pans, or draws or erases and has not moved yet. -/
def Awaits (a : Arbiter α) : Prop :=
  ∃ finger, a.contacts.isFinger finger = true ∧
    ((∃ origin base, a.gesture = .panning finger origin base) ∨
      ∃ held kept, a.gesture = .inking finger held kept false)

variable {a : Arbiter α} {e : Event α}

/-- A finger that is the first contact pans, or begins to draw or to erase. -/
theorem handle_lone_finger (hidle : a.gesture = .idle) (hdown : a.contacts.down = [])
    (he : e.FingerDown) (view : Viewport α) (tool : Tool) :
    let r := a.handle e view tool
    r.1.Awaits ∧ r.1.contacts.down = [.ofEvent e] ∧
    (a.rules.touchMode = .panOnly → r.2 = none ∧ r.1.kind? = some .pan) ∧
    (a.rules.touchMode = .drawWithFinger → tool = .pen →
      r.2 = some (.begin (sampleAt e.pos e view)) ∧ r.1.kind? = some .draw) ∧
    (a.rules.touchMode = .drawWithFinger → tool = .eraser →
      r.2 = some (.erase (view.toCanvas e.pos)) ∧ r.1.kind? = some .erase) := by
  have hfree : a.contacts.get? e.contact = none := by rw [Contacts.get?, hdown]; rfl
  have hpress := Contacts.press_of_isFinite he.finite hfree
  rw [hdown, List.nil_append] at hpress
  have htouch : (Contact.ofEvent e).device = .touch := he.device
  have hself : (Contacts.mk [Contact.ofEvent e]).isFinger e.contact = true := by
    simp [Contacts.isFinger, Contacts.get?, Contact.ofEvent, he.device]
  have hlone : restingFinger? ⟨a.rules, ⟨[.ofEvent e]⟩, .idle⟩ (Contact.ofEvent e).id = none := by
    simp [restingFinger?, Contacts.ofDevice, htouch]
  intro r
  have hr : r = onFinger { a with contacts := ⟨[.ofEvent e]⟩ } (.ofEvent e) e view tool := by
    simp only [r, handle, he.phase, hpress, htouch]
  simp only [onFinger, hidle, hlone] at hr
  cases hmode : a.rules.touchMode with
  | panOnly =>
    rw [hmode] at hr
    rw [hr]
    refine ⟨⟨e.contact, hself, .inl ⟨_, _, rfl⟩⟩, rfl, fun _ => ⟨rfl, rfl⟩, ?_, ?_⟩
    · intro hdraws
      cases hdraws
    · intro hdraws
      cases hdraws
  | drawWithFinger =>
    rw [hmode] at hr
    rw [hr]
    refine ⟨⟨e.contact, hself, .inr ⟨_, _, rfl⟩⟩, rfl, ?_, ?_, ?_⟩
    · intro hpans
      cases hpans
    · rintro - rfl
      exact ⟨rfl, rfl⟩
    · rintro - rfl
      exact ⟨rfl, rfl⟩

/-- Two fingers pinch, and what the first one was drawing is dropped. -/
theorem Awaits.handle (h : a.Awaits) (hphase : e.phase = .start) (hdevice : e.device = .touch)
    (hpress : (a.contacts.press e).isSome = true) (view : Viewport α) (tool : Tool) :
    (a.handle e view tool).2 = (if a.kind? = some .draw then some .cancel else none) ∧
      (a.handle e view tool).1.kind? = some .pinch := by
  obtain ⟨finger, hfinger, hgesture⟩ := h
  obtain ⟨⟨c, contacts⟩, hpress⟩ := Option.isSome_iff_exists.mp hpress
  obtain rfl := Contacts.eq_ofEvent_of_press hpress
  have htouch : (Contact.ofEvent e).device = .touch := hdevice
  have hself := Option.isSome_of_eq_some (Contacts.get?_of_press_self hpress)
  have hfinger := Contacts.isFinger_of_press_of_isFinger hpress hfinger
  have hpinch := pinch_startPinch (a := { a with contacts })
    (Contacts.isSome_get?_of_isFinger hfinger) hself view
  simp only [Arbiter.handle, hphase, hpress, htouch, onFinger]
  rcases hgesture with ⟨origin, base, hg⟩ | ⟨held, kept, hg⟩
  · rw [hg] at hpinch
    simp only [kind?, hg]
    exact ⟨rfl, hpinch⟩
  · rw [hg] at hpinch
    simp only [kind?, hg, hfinger, Bool.not_false, Bool.and_self, if_true]
    refine ⟨?_, hpinch⟩
    cases held <;> rfl

/-- While fingers pinch, a move changes no more than where the contacts are, and asks for another
viewport at most. -/
theorem handle_move_of_pinch (hpinch : a.kind? = some .pinch) (hphase : e.phase = .move)
    (view : Viewport α) (tool : Tool) :
    (∃ contacts, (a.handle e view tool).1 = { a with contacts }) ∧
      ((a.handle e view tool).2 = none ∨ ∃ v, (a.handle e view tool).2 = some (.view v)) := by
  have hr := a.handled e view tool
  generalize a.handle e view tool = r at hr
  cases hr with
  | ignored => exact ⟨⟨a.contacts, rfl⟩, .inl rfl⟩
  | pen phase | finger phase => rw [hphase] at phase; cases phase
  | released phase => rw [hphase] at phase; cases phase
  | @moved c contacts =>
    unfold onMove
    split
    next hg => rw [kind?, hg] at hpinch; cases hpinch
    next hg => rw [kind?, hg] at hpinch; cases hpinch
    next hg => rw [kind?, hg] at hpinch; cases hpinch
    next hg => rw [kind?, hg] at hpinch; cases hpinch
    next first second mid distance base hg =>
      split
      next =>
        refine ⟨⟨contacts, rfl⟩, ?_⟩
        cases contacts.get? first with
        | none => exact .inl rfl
        | some p =>
          cases contacts.get? second with
          | none => exact .inl rfl
          | some q =>
            change Option.map Command.view _ = none ∨ ∃ v, Option.map Command.view _ = some (.view v)
            cases (base.pinched mid (p.pos.midpoint q.pos) _).toOption with
            | none => exact .inl rfl
            | some v => exact .inr ⟨v, rfl⟩
      next => exact ⟨⟨contacts, rfl⟩, .inl rfl⟩

end Arbiter
end InkCanvas
