import InkCanvas.Proofs.Anchor
import InkCanvas.Proofs.Gesture.Navigation
import InkCanvas.Proofs.Session.Ink

/-! # Navigation neither drifts nor jumps

When fingers begin to navigate, the canvas stays where it is. From then on, in exact arithmetic, it is
where the fingers lead it (`Viewport.led`): only where they were then and where they are now counts, not
which moves have led there nor whether the scale met its bounds on the way
(`Session.Reachable.navigation_led`). -/

namespace InkCanvas

/-! ## Exact viewports -/

namespace Viewport

variable {v : Viewport ℝ}

theorem beq_real {w : Viewport ℝ} : (v == w) = true ↔ v = w := by
  obtain ⟨s, ⟨x, y⟩, lo, hi⟩ := v
  obtain ⟨s', ⟨x', y'⟩, lo', hi'⟩ := w
  change (s == s' && ((x == x' && y == y') && (lo == lo' && hi == hi'))) = true ↔ _
  simp [and_assoc]

/-- The viewport that fingers lead another one to when they go from some places to others: one finger
carries the canvas along, and two pinch it. -/
def led {α : Type} [Scalar α] (v : Viewport α) :
    List (Point α) → List (Point α) → Except (InkError α) (Viewport α)
  | [p], [p'] => .ok { v with offset := v.offset + (p' - p) }
  | [p, q], [p', q'] => v.pinched (p.midpoint q) (p'.midpoint q')
      (if Scalar.epsilon < p.distance q then p'.distance q' / p.distance q else 1)
  | _, _ => .ok v

end Viewport

namespace Arbiter

variable {a b : Arbiter ℝ} {v w : Viewport ℝ}

theorem Made.exists_target? (h : a.Made) (hnav : a.gesture.Navigates) :
    ∃ v, a.gesture.target? a.contacts = some v := by
  unfold Made at h
  cases hg : a.gesture with
  | idle => rw [hg] at hnav; exact (Gesture.not_navigates_idle hnav).elim
  | inking => rw [hg] at hnav; exact (Gesture.not_navigates_inking hnav).elim
  | panning finger origin base =>
    rw [hg] at h
    obtain ⟨p, hp⟩ := Contacts.exists_get?_of_device? h
    refine ⟨{ base with offset := base.offset + (p.pos - origin) }, ?_⟩
    rw [Gesture.target?, hp, Option.bind_eq_bind, Option.bind_some, Viewport.pan_real]
    rfl
  | pinching first second mid distance base =>
    rw [hg] at h
    obtain ⟨-, hfirst, hsecond⟩ := h
    obtain ⟨p, hp⟩ := Contacts.exists_get?_of_device? hfirst
    obtain ⟨q, hq⟩ := Contacts.exists_get?_of_device? hsecond
    simp only [Gesture.target?, hp, hq, Option.bind_eq_bind, Option.bind_some, Viewport.pinched_real]
    exact ⟨_, rfl⟩

/-- At its start a gesture asks for the viewport that it starts from. -/
theorem StartsFrom.target? (h : a.StartsFrom v) (hv : v.WithinBounds) :
    a.gesture.target? a.contacts = some v := by
  rcases h with ⟨finger, p, hp, hg⟩ | ⟨first, second, p, q, hp, hq, hg⟩
  · have hstay : v.offset + (p.pos - p.pos) = v.offset := by
      change Point.mk (v.offset.x + (p.pos.x - p.pos.x)) (v.offset.y + (p.pos.y - p.pos.y)) = v.offset
      rw [sub_self, sub_self, add_zero, add_zero]
    rw [hg, Gesture.target?, hp, Option.bind_eq_bind, Option.bind_some, Viewport.pan_real, hstay]
    rfl
  · have hratio : (if Scalar.epsilon < p.pos.distance q.pos then
        p.pos.distance q.pos / p.pos.distance q.pos else 1) = 1 := by
      split
      next hfar => exact div_self (Scalar.epsilon_real_pos.trans hfar).ne'
      next => rfl
    simp only [hg, Gesture.target?, hp, hq, Option.bind_eq_bind, Option.bind_some, hratio,
      hv.pinched_self]
    rfl

theorem StartsFrom.places_length (h : a.StartsFrom v) :
    a.kind? = some .pan ∧ a.places.length = 1 ∨ a.kind? = some .pinch ∧ a.places.length = 2 := by
  rcases h with ⟨finger, p, hp, hg⟩ | ⟨first, second, p, q, hp, hq, hg⟩
  · simp [kind?, places, Gesture.kind?, Gesture.contacts, hg, hp]
  · simp [kind?, places, Gesture.kind?, Gesture.contacts, hg, hp, hq]

/-- As long as a gesture goes on it asks for the viewport that its contacts lead to. -/
theorem StartsFrom.led (h : a.StartsFrom v) (hsame : b.gesture = a.gesture)
    (hw : b.gesture.target? b.contacts = some w) : v.led a.places b.places = .ok w := by
  rcases h with ⟨finger, p, hp, hg⟩ | ⟨first, second, p, q, hp, hq, hg⟩
  · rw [hsame, hg, Gesture.target?] at hw
    obtain ⟨p', hp', hpan⟩ := Option.bind_eq_some_iff.mp hw
    rw [Viewport.pan_real] at hpan
    obtain rfl := Option.some.inj hpan
    simp only [places, hsame, hg, Gesture.contacts, List.filterMap_cons, List.filterMap_nil, hp, hp',
      Option.map_some]
    rfl
  · rw [hsame, hg, Gesture.target?] at hw
    obtain ⟨p', hp', hw⟩ := Option.bind_eq_some_iff.mp hw
    obtain ⟨q', hq', hpinch⟩ := Option.bind_eq_some_iff.mp hw
    rw [Viewport.pinched_real] at hpinch
    obtain rfl := Option.some.inj hpinch
    simp only [places, hsame, hg, Gesture.contacts, List.filterMap_cons, List.filterMap_nil, hp, hq,
      hp', hq', Option.map_some]
    exact v.pinched_real _ _ _

end Arbiter

/-! ## Runs of moves -/

/-- The call passes on a move, or it is about no gesture and does not move the canvas. -/
def Action.Steady {α : Type} : Action α → Prop
  | .handle e => e.phase = .move
  | .interrupt | .pan _ | .zoom .. | .resetView => False
  | _ => True

theorem Action.Steady.navigates_eq_false {α : Type} {a : Action α} (h : a.Steady) :
    a.navigates = false := by
  cases a with
  | pan | zoom | resetView => exact h.elim
  | _ => rfl

namespace Session

/-- The event makes the contacts navigate in another way than before. -/
def Anchors {α : Type} [Scalar α] (s : Session α) (e : Event α) : Prop :=
  (s.perform (.handle e)).1.arbiter.gesture.Navigates ∧
    (s.perform (.handle e)).1.gesture? ≠ s.gesture?

section

variable {α : Type} [Scalar α] {s : Session α} {a : Action α}

/-- The contacts of a reachable session are sound, and its gesture is made by them. -/
theorem Reachable.made (h : s.Reachable) : s.arbiter.contacts.Sound ∧ s.arbiter.Made := by
  obtain ⟨c, start, actions, hc, rfl⟩ := h
  obtain ⟨-, rfl⟩ := ofConfig_eq_ok_iff.mp hc
  induction actions using List.reverseRecOn with
  | nil => exact ⟨Contacts.sound_none, trivial⟩
  | append_singleton before a ih =>
    rw [run_append_singleton]
    refine perform_arbiter_keeps _ (P := fun b => b.contacts.Sound ∧ b.Made) ?_ ?_ ih a
    · rintro b e view tool ⟨hsound, hmade⟩
      exact ⟨Arbiter.sound_handle hsound e view tool, hmade.handle hsound e view tool⟩
    · rintro b -
      exact ⟨Contacts.sound_none, trivial⟩

theorem Anchors.view_eq {e : Event α} (h : s.Anchors e) :
    (s.perform (.handle e)).1.view = s.view := by
  obtain ⟨hnav, hkind⟩ := h
  rw [gesture?, perform_handle_arbiter] at hkind
  rw [perform_handle_arbiter] at hnav
  have hcommand := Arbiter.ne_view_of_anchors hnav hkind
  rw [perform_handle_fst]
  cases hc : (s.arbiter.handle e s.view s.settings.tool).2 with
  | none => rfl
  | some command => exact s.obey_view fun v hv => hcommand v (by rw [hc, hv])

theorem Anchors.startsFrom {e : Event α} (h : s.Anchors e) :
    (s.perform (.handle e)).1.arbiter.StartsFrom s.view := by
  obtain ⟨hnav, hkind⟩ := h
  rw [gesture?, perform_handle_arbiter] at hkind
  rw [perform_handle_arbiter] at hnav ⊢
  exact s.arbiter.anchors_handle e s.view s.settings.tool hnav hkind

/-- A call other than an event is no call to follow. -/
theorem get?_perform (ha : a.Steady) (id : ContactId) :
    (s.perform a).1.arbiter.contacts.get? id =
      (s.arbiter.contacts.get? id).map fun c => (a.moveOf? id).elim c c.follow := by
  rcases a.event_or_interrupt_or_neither with ⟨e, rfl⟩ | rfl | ⟨hother, hinterrupt⟩
  · have hphase : e.phase = .move := ha
    rw [perform_handle_fst]
    refine (Arbiter.get?_of_move hphase s.view s.settings.tool id).trans ?_
    congr 1
    funext c
    simp only [Action.moveOf?, hphase, and_true]
    split <;> rfl
  · exact ha.elim
  · have hnone : a.moveOf? id = none := by
      cases a with
      | handle e => exact (hother e rfl).elim
      | _ => rfl
    rw [s.perform_arbiter hother hinterrupt, hnone]
    exact Option.map_id'.symm

theorem get?_run {calls : List (Action α)} (h : ∀ a ∈ calls, a.Steady) (id : ContactId) :
    (s.run calls).arbiter.contacts.get? id = (s.arbiter.contacts.get? id).map fun c =>
      (calls.filterMap (Action.moveOf? id)).foldl Contact.follow c := by
  induction calls generalizing s with
  | nil => exact Option.map_id'.symm
  | cons a calls ih =>
    obtain ⟨ha, hcalls⟩ := List.forall_mem_cons.mp h
    rw [run_cons, ih hcalls, get?_perform ha, Option.map_map]
    congr 1
    funext c
    rw [Function.comp_apply, List.filterMap_cons]
    cases a.moveOf? id <;> rfl

end

variable {s : Session ℝ} {g : Gesture ℝ}

/-- The gesture goes on, and the canvas is where it asks for it. -/
structure Led (s : Session ℝ) (g : Gesture ℝ) : Prop where
  gesture : s.arbiter.gesture = g
  target : g.target? s.arbiter.contacts = some s.view

theorem Led.handle (h : s.Led g) (hnav : g.Navigates) (hs : s.Reachable) {e : Event ℝ}
    (hphase : e.phase = .move) : (s.perform (.handle e)).1.Led g := by
  obtain ⟨hg, htarget⟩ := h
  obtain ⟨hsound, hmade⟩ := hs.made
  have hafter := hmade.handle hsound e s.view s.settings.tool
  rw [← hg] at hnav htarget
  obtain ⟨contacts, harbiter, hcommand⟩ :=
    Arbiter.handle_move_of_navigates hnav hphase s.view s.settings.tool
  rw [harbiter] at hafter
  obtain ⟨v, hv⟩ := hafter.exists_target? hnav
  rw [perform_handle_fst, harbiter]
  refine ⟨hg, ?_⟩
  rw [← hg]
  rcases hcommand with hcommand | ⟨hcommand, hsame⟩
  · have hview : (s.obey (.view v)).1.view = v := by
      simp only [obey]
      split
      next heq => exact (Viewport.beq_real.mp heq).symm
      next => rfl
    rw [hcommand, hv]
    exact congrArg some hview.symm
  · rw [hcommand]
    exact hsame.trans htarget

theorem Led.perform (h : s.Led g) (hnav : g.Navigates) (hs : s.Reachable) {a : Action ℝ}
    (ha : a.Steady) : (s.perform a).1.Led g := by
  rcases a.event_or_interrupt_or_neither with ⟨e, rfl⟩ | rfl | ⟨hother, hinterrupt⟩
  · exact h.handle hnav hs ha
  · exact ha.elim
  · have hview : (s.perform a).1.view = s.view := by
      rcases s.perform_view hother with heq | ⟨hnavigates, -⟩
      · exact heq
      · rw [ha.navigates_eq_false] at hnavigates
        cases hnavigates
    have harbiter := s.perform_arbiter hother hinterrupt
    exact ⟨by rw [harbiter]; exact h.gesture, by rw [harbiter, hview]; exact h.target⟩

theorem Led.run (h : s.Led g) (hnav : g.Navigates) (hs : s.Reachable) {calls : List (Action ℝ)}
    (hcalls : ∀ a ∈ calls, a.Steady) : (s.run calls).Led g := by
  induction calls using List.reverseRecOn with
  | nil => exact h
  | append_singleton before a ih =>
    obtain ⟨hbefore, ha⟩ := List.forall_mem_append.mp hcalls
    rw [run_append_singleton]
    exact (ih hbefore).perform hnav (hs.run before) (ha a (List.mem_singleton_self a))

theorem pos_foldl_follow (c : Contact ℝ) (events : List (Event ℝ)) :
    (events.foldl Contact.follow c).pos = (events.map Event.pos).getLastD c.pos := by
  induction events generalizing c with
  | nil => rfl
  | cons e events ih => rw [List.foldl_cons, ih, List.map_cons, List.getLastD_cons]; rfl

/-- When an event makes fingers navigate, it leaves the viewport as it is; one finger pans then, or two
pinch. As long as no event but moves comes and the host does not move the canvas, the gesture goes on,
each contact is where its last move was, and the viewport is the one that the fingers lead to from where
they started: it is the first one again if they are where they started, and the same after any other such
calls that leave them in the same places. -/
theorem Reachable.navigation_led (hs : s.Reachable) {e : Event ℝ} (he : s.Anchors e) :
    let t := (s.perform (.handle e)).1
    t.view = s.view ∧
    (t.gesture? = some .pan ∧ t.arbiter.places.length = 1 ∨
      t.gesture? = some .pinch ∧ t.arbiter.places.length = 2) ∧
    ∀ calls, (∀ a ∈ calls, a.Steady) →
      let u := t.run calls
      u.arbiter.gesture = t.arbiter.gesture ∧
      (∀ id, (u.arbiter.contacts.get? id).map Contact.pos =
        (t.arbiter.contacts.get? id).map fun c =>
          ((calls.filterMap (Action.moveOf? id)).map Event.pos).getLastD c.pos) ∧
      s.view.led t.arbiter.places u.arbiter.places = .ok u.view ∧
      (u.arbiter.places = t.arbiter.places → u.view = s.view) ∧
      ∀ others, (∀ a ∈ others, a.Steady) → (t.run others).arbiter.places = u.arbiter.places →
        (t.run others).view = u.view := by
  intro t
  have ht : t.Reachable := hs.run [.handle e]
  have hview : t.view = s.view := he.view_eq
  have hstarts : t.arbiter.StartsFrom s.view := he.startsFrom
  have hnav : t.arbiter.gesture.Navigates := he.1
  have hstart : t.Led t.arbiter.gesture :=
    ⟨rfl, (hstarts.target? hs.withinBounds).trans (congrArg some hview.symm)⟩
  have hrun (calls : List (Action ℝ)) (hcalls : ∀ a ∈ calls, a.Steady) :
      s.view.led t.arbiter.places (t.run calls).arbiter.places = .ok (t.run calls).view := by
    obtain ⟨hgesture, htarget⟩ := hstart.run hnav ht hcalls
    rw [← hgesture] at htarget
    exact hstarts.led hgesture htarget
  refine ⟨hview, hstarts.places_length, fun calls hcalls => ?_⟩
  intro u
  have hled : s.view.led t.arbiter.places u.arbiter.places = .ok u.view := hrun calls hcalls
  refine ⟨(hstart.run hnav ht hcalls).gesture, fun id => ?_, hled, fun hback => ?_, ?_⟩
  · rw [get?_run hcalls, Option.map_map]
    congr 1
    funext c
    exact pos_foldl_follow c _
  · have hself : s.view.led t.arbiter.places t.arbiter.places = .ok t.view := hrun [] (by simp)
    rw [hback, hself] at hled
    rw [← hview]
    exact (Except.ok.inj hled).symm
  · intro others hothers hplaces
    have hled' := hrun others hothers
    rw [hplaces, hled] at hled'
    exact (Except.ok.inj hled').symm

/-- Two fingers pinch and spread so far that the scale meets its bound. The canvas is where it was when
the fingers are back where they started. -/
theorem Reachable.navigation_led_of_clamped_pinch :
    let c : Config ℝ := Config.standard
    let finger (id : ContactId) (phase : Phase) (x : ℝ) : Event ℝ :=
      ⟨id, .touch, phase, ⟨x, 0⟩, 0, none⟩
    let s := (build c).run [.handle (finger 1 .start 0)]
    let t := (s.perform (.handle (finger 2 .start 100))).1
    s.Anchors (finger 2 .start 100) ∧ t.view = s.view ∧
      (t.run [.handle (finger 2 .move 5000), .handle (finger 1 .move 7), .handle (finger 2 .move 100),
        .handle (finger 1 .move 0)]).view = s.view := by
  intro c finger s t
  have hc : ofConfig c = .ok (build c) :=
    ofConfig_eq_ok_iff.mpr ⟨Config.fault?_eq_none_iff.mpr Config.valid_standard_real, rfl⟩
  have hs : s.Reachable := ⟨c, build c, _, hc, rfl⟩
  have hanchors : s.Anchors (finger 2 .start 100) := ⟨.inr rfl, by rintro ⟨⟩⟩
  obtain ⟨hview, -, hled⟩ := hs.navigation_led hanchors
  obtain ⟨hgesture, hpos, -, hback, -⟩ := hled [.handle (finger 2 .move 5000),
    .handle (finger 1 .move 7), .handle (finger 2 .move 100), .handle (finger 1 .move 0)]
    (by simp [Action.Steady, finger])
  have hcontacts : t.arbiter.gesture.contacts = [1, 2] := rfl
  refine ⟨hanchors, hview, hback ?_⟩
  unfold Arbiter.places
  rw [hgesture, hcontacts]
  refine List.filterMap_congr fun id hid => (hpos id).trans ?_
  rcases List.mem_pair.mp hid with rfl | rfl <;> rfl

end Session
end InkCanvas
