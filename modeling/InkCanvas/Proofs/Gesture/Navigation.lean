import InkCanvas.Proofs.Gesture.Found

/-! # Fingers that navigate

A gesture that navigates remembers the viewport and the positions it started from, and no move changes
what it remembers. What it asks for is told by that and by where its contacts are (`Gesture.target?`),
whichever moves have led there. -/

namespace InkCanvas

variable {α : Type}

namespace Gesture

/-- Fingers move the canvas. -/
def Navigates (g : Gesture α) : Prop := g.kind? = some .pan ∨ g.kind? = some .pinch

theorem not_navigates_idle : ¬(idle : Gesture α).Navigates := by
  rintro (h | h) <;> cases h

theorem not_navigates_inking {id : ContactId} {tool : Tool} {kept : Point α} {moved : Bool} :
    ¬(inking id tool kept moved).Navigates := by
  cases tool <;> rintro (h | h) <;> cases h

variable [Scalar α]

/-- The viewport that the gesture asks for, with its contacts where they are. -/
def target? (t : Contacts α) : Gesture α → Option (Viewport α)
  | .idle | .inking .. => none
  | .panning finger origin base => do
    let p ← t.get? finger
    (base.pan (p.pos - origin)).toOption
  | .pinching first second mid distance base => do
    let p ← t.get? first
    let q ← t.get? second
    (base.pinched mid (p.pos.midpoint q.pos)
      (if Scalar.epsilon < distance then p.pos.distance q.pos / distance else 1)).toOption

theorem target?_congr {t t' : Contacts α} {g : Gesture α}
    (h : ∀ id ∈ g.contacts, t'.get? id = t.get? id) : g.target? t' = g.target? t := by
  cases g with
  | idle => rfl
  | inking => rfl
  | panning finger =>
    rw [target?, h finger (List.mem_singleton_self finger)]
    rfl
  | pinching first second =>
    have hfirst := h first List.mem_cons_self
    have hsecond := h second (List.mem_cons_of_mem first (List.mem_singleton_self second))
    rw [target?, hfirst, hsecond]
    rfl

end Gesture

namespace Arbiter

/-- Where the contacts of the gesture are. -/
def places (a : Arbiter α) : List (Point α) :=
  a.gesture.contacts.filterMap fun id => (a.contacts.get? id).map Contact.pos

variable [Scalar α] {a : Arbiter α} {c : Contact α} {e : Event α} {view : Viewport α} {tool : Tool}

/-! ## The start of a gesture -/

/-- One finger pans or two pinch, from where they are and from the viewport. -/
def StartsFrom (a : Arbiter α) (view : Viewport α) : Prop :=
  (∃ finger, a.Pans finger view) ∨ ∃ first second, a.Pinches first second view

/-- If the gesture after an answer is another navigation than before, it starts. -/
def Anchors (a : Arbiter α) (view : Viewport α) (b : Arbiter α) : Prop :=
  b.gesture.Navigates → b.kind? ≠ a.kind? → b.StartsFrom view

theorem anchors_self : a.Anchors view a := fun _ hkind => absurd rfl hkind

theorem anchors_of_not_navigates {b : Arbiter α} (h : ¬b.gesture.Navigates) : a.Anchors view b :=
  fun hnav _ => absurd hnav h

theorem anchors_startInking (e : Event α) : a.Anchors view (a.startInking c e view tool).1 :=
  anchors_of_not_navigates Gesture.not_navigates_inking

theorem anchors_startPinch (first second : ContactId) :
    a.Anchors view (a.startPinch first second view) := by
  unfold startPinch
  split
  next p q hp hq => exact fun _ _ => .inr ⟨first, second, p, q, hp, hq, rfl⟩
  next => exact anchors_self

theorem anchors_onPen : a.Anchors view (a.onPen c e view tool).1 := by
  unfold onPen
  split
  next => exact anchors_startInking e
  next => exact anchors_startInking e
  next => exact anchors_startInking e
  next =>
    split
    next =>
      dsimp only
      split <;> exact anchors_startInking e
    next => exact anchors_self

theorem anchors_onFinger (hc : a.contacts.get? c.id = some c) :
    a.Anchors view (a.onFinger c e view tool).1 := by
  unfold onFinger
  split
  next =>
    split
    next first _ => exact anchors_startPinch first c.id
    next =>
      split
      next => exact fun _ _ => .inl ⟨c.id, c, hc, rfl⟩
      next => exact anchors_startInking e
  next first _ _ _ => exact anchors_startPinch first c.id
  next drawing _ _ _ _ =>
    split
    next => exact anchors_startPinch drawing c.id
    next => exact anchors_self
  next => exact anchors_self

theorem anchors_onMove : a.Anchors view (a.onMove c e view).1 := by
  unfold onMove
  split
  next => exact anchors_self
  next =>
    split
    next => exact anchors_of_not_navigates Gesture.not_navigates_inking
    next => exact anchors_self
  next =>
    split
    next => exact anchors_of_not_navigates Gesture.not_navigates_inking
    next => exact anchors_self
  next => split <;> exact anchors_self
  next => split <;> exact anchors_self

theorem anchors_onRelease : a.Anchors view (a.onRelease c e view).1 := by
  unfold onRelease
  split
  next => exact anchors_self
  next =>
    split
    next => exact anchors_of_not_navigates Gesture.not_navigates_idle
    next => exact anchors_self
  next =>
    dsimp only
    split
    next => exact anchors_of_not_navigates Gesture.not_navigates_idle
    next => exact anchors_self
  next first second _ _ _ _ =>
    split
    next =>
      dsimp only
      split
      next rest hrest => exact fun _ _ => .inl ⟨_, rest, hrest, rfl⟩
      next => exact anchors_of_not_navigates Gesture.not_navigates_idle
    next => exact anchors_self

/-- An event that makes the contacts navigate in another way than before starts a gesture where they are,
from the viewport that is shown, and asks for no other one. -/
theorem anchors_handle (a : Arbiter α) (e : Event α) (view : Viewport α) (tool : Tool) :
    a.Anchors view (a.handle e view tool).1 := by
  have hr := a.handled e view tool
  generalize a.handle e view tool = r at hr
  cases hr with
  | ignored => exact anchors_self
  | @pen contacts => exact anchors_onPen (a := { a with contacts })
  | @finger contacts _ _ press =>
    exact anchors_onFinger (a := { a with contacts }) (Contacts.get?_of_press_self press)
  | @moved c contacts => exact anchors_onMove (a := { a with contacts })
  | @released c contacts => exact anchors_onRelease (a := { a with contacts })

theorem ne_view_of_anchors (hnav : (a.handle e view tool).1.gesture.Navigates)
    (hkind : (a.handle e view tool).1.kind? ≠ a.kind?) (v : Viewport α) :
    (a.handle e view tool).2 ≠ some (.view v) := by
  intro hcommand
  have hover : ¬a.Overruled e tool := by
    intro hover
    rw [(handle_of_overruled hover).2] at hnav
    exact Gesture.not_navigates_inking hnav
  have hturn : Turn a.gesture (a.handle e view tool).2 _ := handle_turn hover
  rw [hcommand] at hturn
  exact hkind (congrArg Gesture.kind? hturn.eq_of_view)

/-! ## Moves -/

theorem get?_of_move (hphase : e.phase = .move) (view : Viewport α) (tool : Tool) (id : ContactId) :
    (a.handle e view tool).1.contacts.get? id =
      (a.contacts.get? id).map fun c => if e.contact = id then c.follow e else c := by
  cases hd : a.contacts.get? e.contact with
  | none =>
    rw [handle_of_lost (by rw [hphase]; rintro ⟨⟩) hd]
    by_cases hid : e.contact = id
    · rw [← hid, hd, Option.map_none]
    · simp only [if_neg hid, Option.map_id']
  | some d =>
    obtain ⟨contacts, hupdate⟩ := Contacts.exists_update_eq hd
    obtain ⟨g, hg⟩ := exists_onMove_eq { a with contacts } (d.follow e) e view
    rw [handle_of_update hphase hupdate, hg]
    dsimp only
    rw [Contacts.get?_of_update hupdate]
    refine Option.map_congr fun c hc => ?_
    obtain ⟨-, rfl⟩ := Contacts.mem_of_get?_eq_some hc
    by_cases hid : e.contact = c.id
    · simp [hid]
    · simp [hid, Ne.symm hid]

theorem onMove_of_navigates (hnav : a.gesture.Navigates) (hc : a.contacts.get? c.id = some c)
    (e : Event α) (view : Viewport α) :
    (a.onMove c e view).1 = a ∧
      ((a.onMove c e view).2 = (a.gesture.target? a.contacts).map .view ∨
        (a.onMove c e view).2 = none ∧ c.id ∉ a.gesture.contacts) := by
  cases hg : a.gesture with
  | idle => rw [hg] at hnav; exact (Gesture.not_navigates_idle hnav).elim
  | inking => rw [hg] at hnav; exact (Gesture.not_navigates_inking hnav).elim
  | panning finger origin base =>
    simp only [onMove, hg]
    split
    next hfinger =>
      refine ⟨rfl, .inl ?_⟩
      rw [Gesture.target?, hfinger, hc]
      rfl
    next hfinger => exact ⟨rfl, .inr ⟨rfl, by simpa [Gesture.contacts] using Ne.symm hfinger⟩⟩
  | pinching first second mid distance base =>
    simp only [onMove, hg]
    split
    next =>
      refine ⟨rfl, .inl ?_⟩
      rw [Gesture.target?]
      cases a.contacts.get? first with
      | none => rfl
      | some p =>
        cases a.contacts.get? second with
        | none => rfl
        | some q => rfl
    next hmoves =>
      obtain ⟨hfirst, hsecond⟩ := not_or.mp hmoves
      exact ⟨rfl, .inr ⟨rfl, by simp [Gesture.contacts, Ne.symm hfirst, Ne.symm hsecond]⟩⟩

/-- While fingers navigate, a move changes only where the contacts are, and asks for the viewport that
the gesture then asks for, if its contact is one of them. -/
theorem handle_move_of_navigates (hnav : a.gesture.Navigates) (hphase : e.phase = .move)
    (view : Viewport α) (tool : Tool) :
    ∃ contacts, (a.handle e view tool).1 = { a with contacts } ∧
      ((a.handle e view tool).2 = (a.gesture.target? contacts).map .view ∨
        (a.handle e view tool).2 = none ∧ a.gesture.target? contacts = a.gesture.target? a.contacts) := by
  cases hd : a.contacts.get? e.contact with
  | none =>
    rw [handle_of_lost (by rw [hphase]; rintro ⟨⟩) hd]
    exact ⟨a.contacts, rfl, .inr ⟨rfl, rfl⟩⟩
  | some d =>
    obtain ⟨contacts, hupdate⟩ := Contacts.exists_update_eq hd
    have hid : (d.follow e).id = e.contact := Contacts.id_of_update hupdate
    have hself : contacts.get? (d.follow e).id = some (d.follow e) := by
      have hsame : (d.id == e.contact) = true := beq_iff_eq.mpr hid
      rw [hid, Contacts.get?_of_update hupdate, hd, Option.map_some, if_pos hsame]
    obtain ⟨hsame, hcommand⟩ := onMove_of_navigates (a := { a with contacts }) hnav hself e view
    rw [handle_of_update hphase hupdate]
    refine ⟨contacts, hsame, hcommand.imp_right fun ⟨hnone, hother⟩ => ⟨hnone, ?_⟩⟩
    rw [hid] at hother
    refine Gesture.target?_congr fun id hmem => Contacts.get?_of_update_of_ne hupdate ?_
    rintro rfl
    exact hother hmem

end Arbiter
end InkCanvas
