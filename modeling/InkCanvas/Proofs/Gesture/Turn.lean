import InkCanvas.Gesture.Arbiter
import InkCanvas.Proofs.Gesture.Contacts

/-! # How an event turns the gesture

A *turn* is the gesture before an event, the command that the event gives and the gesture after it.
A contact stops drawing with a command that commits or drops its stroke, with one exception: a pen
that takes over from a finger while the eraser is selected (`Arbiter.Overruled`) leaves the stroke
of the finger behind. Every other event makes a `Turn` (`Arbiter.handle_turn`). -/

namespace InkCanvas

variable {α : Type}

/-- The contact that draws. -/
def Gesture.drawer? : Gesture α → Option ContactId
  | .inking id .pen _ _ => some id
  | _ => none

theorem Gesture.drawer?_eq_some_iff {g : Gesture α} {id : ContactId} :
    g.drawer? = some id ↔ ∃ kept moved, g = .inking id .pen kept moved := by
  cases g with
  | inking id tool kept moved => cases tool <;> simp [drawer?]
  | idle | panning | pinching => simp [drawer?]

theorem Gesture.kind?_eq_draw_iff {g : Gesture α} :
    g.kind? = some .draw ↔ g.drawer?.isSome := by
  cases g with
  | inking id tool kept moved => cases tool <;> simp [kind?, drawer?]
  | idle | panning | pinching => simp [kind?, drawer?]

theorem Gesture.eq_idle_of_kind? {g : Gesture α} (h : g.kind? = none) : g = .idle := by
  cases g with
  | idle => rfl
  | inking id tool kept moved => cases tool <;> cases h
  | panning | pinching => cases h

/-- The gestures around a command. -/
inductive Turn : Gesture α → Option (Command α) → Gesture α → Prop where
  | rest (g : Gesture α) : Turn g none g
  | steer {g g' : Gesture α} (before : g.kind? ≠ some .draw) (after : g'.kind? ≠ some .draw) :
      Turn g none g'
  | begin (g : Gesture α) (first : Sample α) (id : ContactId) (pos : Point α) :
      Turn g (some (.begin first)) (.inking id .pen pos false)
  | restart (drawer : ContactId) (kept : Point α) (first : Sample α) (id : ContactId)
      (pos : Point α) :
      Turn (.inking drawer .pen kept false) (some (.restart first)) (.inking id .pen pos false)
  | extend (id : ContactId) (kept pos : Point α) (moved : Bool) (next : Sample α) :
      Turn (.inking id .pen kept moved) (some (.extend next)) (.inking id .pen pos true)
  | finish {g : Gesture α} (draws : g.kind? = some .draw) (last : Option (Sample α)) :
      Turn g (some (.finish last)) .idle
  | cancel (drawer : ContactId) (kept : Point α) {g : Gesture α} (pinches : g.kind? = some .pinch) :
      Turn (.inking drawer .pen kept false) (some .cancel) g
  | erase {g : Gesture α} (before : g.kind? ≠ some .draw) (p : Point α) (id : ContactId)
      (pos : Point α) (moved : Bool) : Turn g (some (.erase p)) (.inking id .eraser pos moved)
  | view {g : Gesture α} (navigates : g.kind? = some .pan ∨ g.kind? = some .pinch)
      (v : Viewport α) : Turn g (some (.view v)) g

theorem Turn.eq_of_view {g g' : Gesture α} {v : Viewport α} (h : Turn g (some (.view v)) g') :
    g' = g := by
  cases h
  rfl

theorem Turn.eq_idle_of_finish {g g' : Gesture α} {last : Option (Sample α)}
    (h : Turn g (some (.finish last)) g') : g' = .idle := by
  cases h
  rfl

theorem Turn.moved {g : Gesture α} (navigates : g.kind? = some .pan ∨ g.kind? = some .pinch)
    (view? : Option (Viewport α)) : Turn g (view?.map .view) g := by
  cases view? with
  | none => exact .rest g
  | some view => exact .view navigates view

namespace Arbiter

variable [Scalar α] {a : Arbiter α} {c : Contact α} {e : Event α} {view : Viewport α} {tool : Tool}

/-- What an event may come to: it is ignored, or its contact is followed and one of the handlers
goes on from there. -/
inductive Handled (a : Arbiter α) (e : Event α) (view : Viewport α) (tool : Tool) :
    Arbiter α × Option (Command α) → Prop where
  | ignored : Handled a e view tool (a, none)
  | pen {contacts : Contacts α} (phase : e.phase = .start) (device : e.device = .stylus)
      (press : a.contacts.press e = some (.ofEvent e, contacts)) :
      Handled a e view tool (onPen { a with contacts } (.ofEvent e) e view tool)
  | finger {contacts : Contacts α} (phase : e.phase = .start) (device : e.device = .touch)
      (press : a.contacts.press e = some (.ofEvent e, contacts)) :
      Handled a e view tool (onFinger { a with contacts } (.ofEvent e) e view tool)
  | moved {c : Contact α} {contacts : Contacts α} (phase : e.phase = .move)
      (update : a.contacts.update e = some (c, contacts)) :
      Handled a e view tool (onMove { a with contacts } c e view)
  | released {c : Contact α} {contacts : Contacts α} (phase : e.phase.isRelease = true)
      (release : a.contacts.release e = some (c, contacts)) :
      Handled a e view tool (onRelease { a with contacts } c e view)

theorem handled (a : Arbiter α) (e : Event α) (view : Viewport α) (tool : Tool) :
    Handled a e view tool (a.handle e view tool) := by
  unfold handle
  split
  next hphase =>
    cases hpress : a.contacts.press e with
    | none => exact .ignored
    | some pressed =>
      obtain ⟨c, contacts⟩ := pressed
      obtain rfl := Contacts.eq_ofEvent_of_press hpress
      dsimp only
      split
      next hdevice => exact .pen hphase hdevice hpress
      next hdevice => exact .finger hphase hdevice hpress
  next hphase =>
    cases hupdate : a.contacts.update e with
    | none => exact .ignored
    | some updated => exact .moved hphase hupdate
  all_goals
    next hphase =>
      cases hrelease : a.contacts.release e with
      | none => exact .ignored
      | some released => exact .released (by rw [hphase]; rfl) hrelease

theorem handle_of_pen {contacts : Contacts α} (hphase : e.phase = .start)
    (hdevice : e.device = .stylus) (hpress : a.contacts.press e = some (.ofEvent e, contacts)) :
    a.handle e view tool = onPen { a with contacts } (.ofEvent e) e view tool := by
  have hpen : (Contact.ofEvent e).device = .stylus := hdevice
  simp only [handle, hphase, hpress, hpen]

theorem handle_of_finger {contacts : Contacts α} (hphase : e.phase = .start)
    (hdevice : e.device = .touch) (hpress : a.contacts.press e = some (.ofEvent e, contacts)) :
    a.handle e view tool = onFinger { a with contacts } (.ofEvent e) e view tool := by
  have htouch : (Contact.ofEvent e).device = .touch := hdevice
  simp only [handle, hphase, hpress, htouch]

theorem handle_of_update {contacts : Contacts α} (hphase : e.phase = .move)
    (hupdate : a.contacts.update e = some (c, contacts)) :
    a.handle e view tool = onMove { a with contacts } c e view := by
  simp only [handle, hphase, hupdate]

/-- An event other than a press is ignored if its contact is not down. -/
theorem handle_of_lost (hphase : e.phase ≠ .start) (hlost : a.contacts.get? e.contact = none) :
    a.handle e view tool = (a, none) := by
  have hupdate : a.contacts.update e = none := by rw [Contacts.update, hlost, Option.map_none]
  have hrelease : a.contacts.release e = none := by rw [Contacts.release, hlost, Option.map_none]
  cases hp : e.phase with
  | start => exact absurd hp hphase
  | move => simp only [handle, hp, hupdate]
  | lift | cancel => simp only [handle, hp, hrelease]

theorem handle_of_release {contacts : Contacts α} (hphase : e.phase.isRelease = true)
    (hrelease : a.contacts.release e = some (c, contacts)) :
    a.handle e view tool = onRelease { a with contacts } c e view := by
  cases hp : e.phase with
  | start | move => rw [hp] at hphase; cases hphase
  | lift | cancel => simp only [handle, hp, hrelease]

/-! ## What the handlers leave alone

A handler changes the gesture only: neither the contacts nor the rules. -/

theorem exists_startPinch_eq (a : Arbiter α) (first second : ContactId) (view : Viewport α) :
    ∃ g, a.startPinch first second view = { a with gesture := g } := by
  unfold startPinch
  split
  next => exact ⟨_, rfl⟩
  next => exact ⟨a.gesture, rfl⟩

theorem exists_onPen_eq (a : Arbiter α) (c : Contact α) (e : Event α) (view : Viewport α)
    (tool : Tool) : ∃ g, (a.onPen c e view tool).1 = { a with gesture := g } := by
  unfold onPen
  split
  next => exact ⟨_, rfl⟩
  next => exact ⟨_, rfl⟩
  next => exact ⟨_, rfl⟩
  next =>
    split
    next =>
      dsimp only
      split <;> exact ⟨_, rfl⟩
    next => exact ⟨a.gesture, rfl⟩

theorem exists_onFinger_eq (a : Arbiter α) (c : Contact α) (e : Event α) (view : Viewport α)
    (tool : Tool) : ∃ g, (a.onFinger c e view tool).1 = { a with gesture := g } := by
  unfold onFinger
  split
  next =>
    split
    next first _ => exact a.exists_startPinch_eq first c.id view
    next => split <;> exact ⟨_, rfl⟩
  next first _ _ _ => exact a.exists_startPinch_eq first c.id view
  next drawing _ _ _ _ =>
    split
    next => exact a.exists_startPinch_eq drawing c.id view
    next => exact ⟨a.gesture, rfl⟩
  next => exact ⟨a.gesture, rfl⟩

theorem exists_onMove_eq (a : Arbiter α) (c : Contact α) (e : Event α) (view : Viewport α) :
    ∃ g, (a.onMove c e view).1 = { a with gesture := g } := by
  unfold onMove
  split
  next => exact ⟨a.gesture, rfl⟩
  next =>
    split
    next => exact ⟨_, rfl⟩
    next => exact ⟨a.gesture, rfl⟩
  next =>
    split
    next => exact ⟨_, rfl⟩
    next => exact ⟨a.gesture, rfl⟩
  next => exact ⟨a.gesture, by split <;> rfl⟩
  next => exact ⟨a.gesture, by split <;> rfl⟩

theorem exists_onRelease_eq (a : Arbiter α) (c : Contact α) (e : Event α) (view : Viewport α) :
    ∃ g, (a.onRelease c e view).1 = { a with gesture := g } := by
  unfold onRelease
  split
  next => exact ⟨a.gesture, rfl⟩
  next =>
    split
    next => exact ⟨_, rfl⟩
    next => exact ⟨a.gesture, rfl⟩
  next =>
    dsimp only
    split
    next => exact ⟨_, rfl⟩
    next => exact ⟨a.gesture, rfl⟩
  next =>
    split
    next =>
      dsimp only
      split <;> exact ⟨_, rfl⟩
    next => exact ⟨a.gesture, rfl⟩

/-- No event changes the rules. -/
theorem rules_handle (a : Arbiter α) (e : Event α) (view : Viewport α) (tool : Tool) :
    (a.handle e view tool).1.rules = a.rules := by
  have hr := a.handled e view tool
  generalize a.handle e view tool = r at hr
  cases hr with
  | ignored => rfl
  | @pen contacts =>
    obtain ⟨g, hg⟩ := exists_onPen_eq { a with contacts } (.ofEvent e) e view tool
    rw [hg]
  | @finger contacts =>
    obtain ⟨g, hg⟩ := exists_onFinger_eq { a with contacts } (.ofEvent e) e view tool
    rw [hg]
  | @moved c contacts =>
    obtain ⟨g, hg⟩ := exists_onMove_eq { a with contacts } c e view
    rw [hg]
  | @released c contacts =>
    obtain ⟨g, hg⟩ := exists_onRelease_eq { a with contacts } c e view
    rw [hg]

/-- A finger draws. -/
def FingerDraws (a : Arbiter α) : Prop :=
  ∃ finger, a.gesture.drawer? = some finger ∧ a.contacts.isFinger finger = true

/-- A pen comes down with the eraser selected while a finger draws. -/
def Overruled (a : Arbiter α) (e : Event α) (tool : Tool) : Prop :=
  tool = .eraser ∧ e.phase = .start ∧ e.device = .stylus ∧ (a.contacts.press e).isSome ∧
    a.FingerDraws

theorem startPinch_kind? (a : Arbiter α) (first second : ContactId) (view : Viewport α) :
    (a.startPinch first second view).gesture.kind? = some .pinch ∨
      (a.startPinch first second view).gesture = a.gesture := by
  unfold startPinch
  split
  · exact .inl rfl
  · exact .inr rfl

theorem pinch_startPinch {first second : ContactId}
    (hfirst : (a.contacts.get? first).isSome = true)
    (hsecond : (a.contacts.get? second).isSome = true) (view : Viewport α) :
    (a.startPinch first second view).gesture.kind? = some .pinch := by
  obtain ⟨p, hp⟩ := Option.isSome_iff_exists.mp hfirst
  obtain ⟨q, hq⟩ := Option.isSome_iff_exists.mp hsecond
  simp only [startPinch, hp, hq]
  rfl

/-- Two fingers may pinch whenever nothing is being drawn. -/
theorem startPinch_turn (a : Arbiter α) (first second : ContactId) (view : Viewport α)
    (h : a.gesture.kind? ≠ some .draw) :
    Turn a.gesture (none : Option (Command α)) (a.startPinch first second view).gesture := by
  refine .steer h ?_
  rcases a.startPinch_kind? first second view with hk | hk
  · rw [hk]; nofun
  · rwa [hk]

theorem startInking_turn (a : Arbiter α) (h : tool = .eraser → a.gesture.kind? ≠ some .draw) :
    Turn a.gesture (some (a.startInking c e view tool).2)
      (a.startInking c e view tool).1.gesture := by
  cases tool with
  | pen => exact .begin _ _ _ _
  | eraser => exact .erase (h rfl) _ _ _ _

theorem onPen_turn (h : ¬(tool = .eraser ∧ a.FingerDraws)) :
    Turn a.gesture (a.onPen c e view tool).2 (a.onPen c e view tool).1.gesture := by
  unfold onPen
  split
  next hg => exact a.startInking_turn fun _ => by rw [hg]; nofun
  next hg => exact a.startInking_turn fun _ => by rw [hg]; nofun
  next hg => exact a.startInking_turn fun _ => by rw [hg]; nofun
  next drawing held kept moved hg =>
    split
    next hfinger =>
      cases tool with
      | eraser =>
        refine .erase (fun hdraw => h ⟨rfl, drawing, ?_, hfinger⟩) _ _ _ _
        cases held with
        | pen => rw [hg]; rfl
        | eraser => rw [hg] at hdraw; cases hdraw
      | pen =>
        cases held with
        | eraser => exact .begin _ _ _ _
        | pen =>
          cases moved with
          | true => exact .begin _ _ _ _
          | false => rw [hg]; exact .restart _ _ _ _ _
    next => exact .rest _

theorem onFinger_turn (hc : (a.contacts.get? c.id).isSome = true) :
    Turn a.gesture (a.onFinger c e view tool).2 (a.onFinger c e view tool).1.gesture := by
  unfold onFinger
  split
  next hg =>
    have hidle : a.gesture.kind? ≠ some .draw := by rw [hg]; nofun
    split
    next first _ => exact a.startPinch_turn first c.id view hidle
    next =>
      split
      next => exact .steer hidle nofun
      next => exact a.startInking_turn fun _ => hidle
  next first _ _ hg =>
    exact a.startPinch_turn first c.id view (by rw [hg]; nofun)
  next drawing held kept moved hg =>
    split
    next hresting =>
      obtain ⟨hmoved, hfinger⟩ := Bool.and_eq_true_iff.mp hresting
      cases held with
      | pen =>
        have hpinch := pinch_startPinch (Contacts.isSome_get?_of_isFinger hfinger) hc view
        have hunmoved : moved = false := by simpa using hmoved
        rw [hg, hunmoved]
        exact .cancel _ _ hpinch
      | eraser => exact a.startPinch_turn drawing c.id view (by rw [hg]; nofun)
    next => exact .rest _
  next => exact .rest _

theorem onMove_turn : Turn a.gesture (a.onMove c e view).2 (a.onMove c e view).1.gesture := by
  unfold onMove
  split
  next => exact .rest _
  next hg =>
    split
    next => exact .erase (by rw [hg]; nofun) _ _ _ _
    next => exact .rest _
  next hg =>
    split
    next => rw [hg]; exact .extend _ _ _ _ _
    next => exact .rest _
  next hg =>
    split
    next => exact .moved (.inl (by rw [hg]; rfl)) _
    next => exact .rest _
  next first second _ _ _ hg =>
    split
    next =>
      cases a.contacts.get? first with
      | none => exact .rest _
      | some p =>
        cases a.contacts.get? second with
        | none => exact .rest _
        | some q => exact Turn.moved (.inr (by rw [hg]; rfl)) _
    next => exact .rest _

theorem onRelease_turn :
    Turn a.gesture (a.onRelease c e view).2 (a.onRelease c e view).1.gesture := by
  unfold onRelease
  split
  next => exact .rest _
  next drawing held kept moved hg =>
    split
    next =>
      cases held with
      | pen => exact .finish (by rw [hg]; rfl) _
      | eraser => exact .steer (by rw [hg]; nofun) nofun
    next => exact .rest _
  next finger _ _ hg =>
    split
    next => exact .steer (by rw [hg]; nofun) nofun
    next => exact .rest _
  next first second _ _ _ hg =>
    have hpinch : a.gesture.kind? ≠ some .draw := by rw [hg]; nofun
    split
    next =>
      dsimp only
      cases a.contacts.get? (if first = c.id then second else first) with
      | some rest => exact .steer hpinch nofun
      | none => exact .steer hpinch nofun
    next => exact .rest _

/-- Unless a pen overrules a finger with the eraser, an event makes a turn. -/
theorem handle_turn (h : ¬a.Overruled e tool) :
    Turn a.gesture (a.handle e view tool).2 (a.handle e view tool).1.gesture := by
  have hr := a.handled e view tool
  generalize a.handle e view tool = r at hr
  cases hr with
  | ignored => exact .rest _
  | @pen contacts phase device press =>
    refine onPen_turn (a := { a with contacts }) ?_
    -- The new contact is a pen, so a finger that draws now drew before.
    rintro ⟨htool, finger, hdraws, hfinger⟩
    rw [Contacts.isFinger_of_press press device] at hfinger
    exact h ⟨htool, phase, device, Option.isSome_of_eq_some press, finger, hdraws, hfinger⟩
  | @finger contacts _ _ press =>
    have hpressed := Option.isSome_of_eq_some (Contacts.get?_of_press_self press)
    exact onFinger_turn (a := { a with contacts }) hpressed
  | @moved c contacts => exact onMove_turn (a := { a with contacts })
  | @released c contacts => exact onRelease_turn (a := { a with contacts })

/-- A pen that overrules a finger erases. -/
theorem handle_of_overruled (h : a.Overruled e tool) :
    (a.handle e view tool).2 = some (.erase (view.toCanvas e.pos)) ∧
      (a.handle e view tool).1.gesture = .inking e.contact .eraser e.pos false := by
  obtain ⟨rfl, hphase, hdevice, hpress, finger, hdraws, hfinger⟩ := h
  obtain ⟨⟨c, contacts⟩, hpress⟩ := Option.isSome_iff_exists.mp hpress
  obtain rfl := Contacts.eq_ofEvent_of_press hpress
  obtain ⟨kept, moved, hg⟩ := Gesture.drawer?_eq_some_iff.mp hdraws
  have hpen : (Contact.ofEvent e).device = .stylus := hdevice
  rw [← Contacts.isFinger_of_press hpress hdevice] at hfinger
  simp only [handle, hphase, hpress, hpen, onPen, hg, hfinger, if_true, startInking]
  exact ⟨rfl, rfl⟩

end Arbiter

end InkCanvas
