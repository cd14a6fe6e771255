import InkCanvas.Proofs.Gesture.Turn

/-! # While a pen draws or erases

A pen that draws or erases is not disturbed by other contacts. An event of another contact gives no
command and leaves the gesture alone (`Arbiter.Drives.handle_other`), and what an event of the pen
gives does not depend on the other contacts that are down, nor on the tool that is selected by then
(`Arbiter.Alike.handle`). So the commands of a whole run are those of the events of the pen
(`Arbiter.Alike.commands`). -/

namespace InkCanvas

variable {α : Type}

/-- An event as the arbiter gets it, with the viewport and the selected tool of that moment. -/
structure Cue (α : Type) where
  event : Event α
  view : Viewport α
  tool : Tool

/-- What the cue tells about the event and the viewport. -/
def Cue.scene (q : Cue α) : Event α × Viewport α := (q.event, q.view)

namespace Arbiter

/-- A pen that is down draws or erases. -/
structure Drives (a : Arbiter α) (pen : ContactId) : Prop where
  gesture : ∃ tool kept moved, a.gesture = .inking pen tool kept moved
  device : ∃ c, a.contacts.get? pen = some c ∧ c.device = .stylus

/-- Two arbiters differ at most in contacts other than the pen. -/
structure Alike (pen : ContactId) (a b : Arbiter α) : Prop where
  rules : b.rules = a.rules
  gesture : b.gesture = a.gesture
  contact : b.contacts.get? pen = a.contacts.get? pen

theorem Alike.refl (pen : ContactId) (a : Arbiter α) : Alike pen a a := ⟨rfl, rfl, rfl⟩

theorem Alike.symm {pen : ContactId} {a b : Arbiter α} (h : Alike pen a b) : Alike pen b a :=
  ⟨h.rules.symm, h.gesture.symm, h.contact.symm⟩

theorem Alike.trans {pen : ContactId} {a b c : Arbiter α} (h : Alike pen a b)
    (h' : Alike pen b c) : Alike pen a c :=
  ⟨h'.rules.trans h.rules, h'.gesture.trans h.gesture, h'.contact.trans h.contact⟩

variable {pen : ContactId} {a b : Arbiter α}

theorem Drives.isFinger_eq_false (h : a.Drives pen) : a.contacts.isFinger pen = false := by
  obtain ⟨c, hc, hdevice⟩ := h.device
  simp [Contacts.isFinger, hc, hdevice]

theorem Drives.of_alike (h : a.Drives pen) (hab : Alike pen a b) : b.Drives pen := by
  obtain ⟨hgesture, hdevice⟩ := h
  rw [← hab.gesture] at hgesture
  rw [← hab.contact] at hdevice
  exact ⟨hgesture, hdevice⟩

variable [Scalar α] {e : Event α}

/-! ## Other contacts -/

theorem Drives.onPen_eq (h : a.Drives pen) (c : Contact α) (e : Event α) (view : Viewport α)
    (tool : Tool) : a.onPen c e view tool = (a, none) := by
  obtain ⟨held, kept, moved, hg⟩ := h.gesture
  simp [onPen, hg, h.isFinger_eq_false]

theorem Drives.onFinger_eq (h : a.Drives pen) (c : Contact α) (e : Event α) (view : Viewport α)
    (tool : Tool) : a.onFinger c e view tool = (a, none) := by
  obtain ⟨held, kept, moved, hg⟩ := h.gesture
  simp [onFinger, hg, h.isFinger_eq_false]

theorem Drives.onMove_eq_of_ne (h : a.Drives pen) {c : Contact α} (hc : c.id ≠ pen) (e : Event α)
    (view : Viewport α) : a.onMove c e view = (a, none) := by
  obtain ⟨held, kept, moved, hg⟩ := h.gesture
  have hne : pen ≠ c.id := Ne.symm hc
  cases held with
  | pen => simp [onMove, hg, hne]
  | eraser => simp [onMove, hg, hne]

theorem Drives.onRelease_eq_of_ne (h : a.Drives pen) {c : Contact α} (hc : c.id ≠ pen)
    (e : Event α) (view : Viewport α) : a.onRelease c e view = (a, none) := by
  obtain ⟨held, kept, moved, hg⟩ := h.gesture
  have hne : pen ≠ c.id := Ne.symm hc
  simp [onRelease, hg, hne]

/-- An event of another contact gives no command and changes nothing but other contacts. -/
theorem Drives.handle_other (h : a.Drives pen) (he : e.contact ≠ pen) (view : Viewport α)
    (tool : Tool) :
    (a.handle e view tool).2 = none ∧ Alike pen a (a.handle e view tool).1 := by
  have hquiet {contacts : Contacts α} {r : Arbiter α × Option (Command α)}
      (hget : contacts.get? pen = a.contacts.get? pen)
      (hr : Drives { a with contacts } pen → r = ({ a with contacts }, none)) :
      r.2 = none ∧ Alike pen a r.1 := by
    have halike : Alike pen a { a with contacts } := ⟨rfl, rfl, hget⟩
    rw [hr (h.of_alike halike)]
    exact ⟨rfl, halike⟩
  have hr := a.handled e view tool
  generalize a.handle e view tool = r at hr
  cases hr with
  | ignored => exact ⟨rfl, .refl pen a⟩
  | pen _ _ press =>
    exact hquiet (Contacts.get?_of_press_of_ne press he) fun hdrives => hdrives.onPen_eq ..
  | finger _ _ press =>
    exact hquiet (Contacts.get?_of_press_of_ne press he) fun hdrives => hdrives.onFinger_eq ..
  | moved _ update =>
    have hc := Contacts.id_of_update update ▸ he
    exact hquiet (Contacts.get?_of_update_of_ne update he) fun hdrives =>
      hdrives.onMove_eq_of_ne hc e view
  | released _ release =>
    have hc := Contacts.id_of_release release ▸ he
    exact hquiet (Contacts.get?_of_release_of_ne release he) fun hdrives =>
      hdrives.onRelease_eq_of_ne hc e view

/-! ## The pen itself -/

theorem Alike.onMove (hab : Alike pen a b) (ha : a.Drives pen) (c : Contact α) (e : Event α)
    (view : Viewport α) : (b.onMove c e view).2 = (a.onMove c e view).2 ∧
      Alike pen (a.onMove c e view).1 (b.onMove c e view).1 := by
  obtain ⟨held, kept, moved, hg⟩ := ha.gesture
  have hg' := hab.gesture.trans hg
  cases held with
  | pen =>
    simp only [Arbiter.onMove, hg, hg', hab.rules]
    split
    · exact ⟨rfl, rfl, rfl, hab.contact⟩
    · exact ⟨rfl, hab⟩
  | eraser =>
    simp only [Arbiter.onMove, hg, hg']
    split
    · exact ⟨rfl, hab.rules, rfl, hab.contact⟩
    · exact ⟨rfl, hab⟩

theorem Drives.onMove (h : a.Drives pen) (c : Contact α) (e : Event α) (view : Viewport α) :
    (a.onMove c e view).1.Drives pen := by
  obtain ⟨held, kept, moved, hg⟩ := h.gesture
  cases held with
  | pen =>
    simp only [Arbiter.onMove, hg]
    split
    · exact ⟨⟨_, _, _, rfl⟩, h.device⟩
    · exact h
  | eraser =>
    simp only [Arbiter.onMove, hg]
    split
    · exact ⟨⟨_, _, _, rfl⟩, h.device⟩
    · exact h

theorem Alike.onRelease (hab : Alike pen a b)
    (ha : ∃ tool kept moved, a.gesture = .inking pen tool kept moved) (c : Contact α) (e : Event α)
    (view : Viewport α) : (b.onRelease c e view).2 = (a.onRelease c e view).2 ∧
      Alike pen (a.onRelease c e view).1 (b.onRelease c e view).1 := by
  obtain ⟨held, kept, moved, hg⟩ := ha
  have hg' := hab.gesture.trans hg
  simp only [Arbiter.onRelease, hg, hg', hab.rules]
  split
  · exact ⟨rfl, rfl, rfl, hab.contact⟩
  · exact ⟨rfl, hab⟩

/-- The pen is down already, so it cannot come down. -/
theorem Drives.press_eq_none (h : a.Drives e.contact) : a.contacts.press e = none := by
  obtain ⟨c, hc, -⟩ := h.device
  simp [Contacts.press, hc]

theorem Drives.update {c : Contact α} {contacts : Contacts α} (h : a.Drives e.contact)
    (hupdate : a.contacts.update e = some (c, contacts)) :
    Drives { a with contacts } e.contact := by
  obtain ⟨d, hd, hdevice⟩ := h.device
  refine ⟨h.gesture, d.follow e, ?_, hdevice⟩
  rw [Contacts.get?_of_update hupdate, hd, Option.map_some,
    if_pos (by simp [(Contacts.mem_of_get?_eq_some hd).2])]

/-- What an event of the pen gives depends neither on other contacts nor on the selected tool. -/
theorem Alike.handle (hab : Alike e.contact a b) (ha : a.Drives e.contact) (view : Viewport α)
    (tool tool' : Tool) : (b.handle e view tool').2 = (a.handle e view tool).2 ∧
      Alike e.contact (a.handle e view tool).1 (b.handle e view tool').1 := by
  obtain ⟨c, hc, -⟩ := ha.device
  have hc' := hab.contact.trans hc
  unfold Arbiter.handle
  split
  next => rw [ha.press_eq_none, (ha.of_alike hab).press_eq_none]; exact ⟨rfl, hab⟩
  next =>
    obtain ⟨ca, hca⟩ := Contacts.exists_update_eq hc
    obtain ⟨cb, hcb⟩ := Contacts.exists_update_eq hc'
    have hupdated : Alike e.contact { a with contacts := ca } { b with contacts := cb } := by
      refine ⟨hab.rules, hab.gesture, ?_⟩
      rw [Contacts.get?_of_update hca, Contacts.get?_of_update hcb, hab.contact]
    rw [hca, hcb]
    exact hupdated.onMove (ha.update hca) (c.follow e) e view
  all_goals
    obtain ⟨ca, hca⟩ := Contacts.exists_release_eq hc
    obtain ⟨cb, hcb⟩ := Contacts.exists_release_eq hc'
    have hreleased : Alike e.contact { a with contacts := ca } { b with contacts := cb } := by
      refine ⟨hab.rules, hab.gesture, ?_⟩
      rw [Contacts.get?_of_release hca, Contacts.get?_of_release hcb, hab.contact]
    rw [hca, hcb]
    exact hreleased.onRelease ha.gesture (c.follow e) e view

/-- The pen goes on until it is released. -/
theorem Drives.handle (h : a.Drives e.contact) (hphase : e.phase.isRelease = false)
    (view : Viewport α) (tool : Tool) : (a.handle e view tool).1.Drives e.contact := by
  have hr := a.handled e view tool
  generalize a.handle e view tool = r at hr
  cases hr with
  | ignored => exact h
  | pen _ _ press => rw [h.press_eq_none] at press; cases press
  | finger _ _ press => rw [h.press_eq_none] at press; cases press
  | moved _ update => exact (h.update update).onMove _ e view
  | released phase => rw [hphase] at phase; cases phase

theorem Drives.handle_of_held (h : a.Drives pen)
    (he : e.contact = pen → e.phase.isRelease = false) (view : Viewport α) (tool : Tool) :
    (a.handle e view tool).1.Drives pen := by
  by_cases hpen : e.contact = pen
  · subst hpen
    exact h.handle (he rfl) view tool
  · exact h.of_alike (h.handle_other hpen view tool).2

/-! ## Runs -/

/-- The commands that a list of cues gives. -/
def commands (a : Arbiter α) : List (Cue α) → List (Command α)
  | [] => []
  | q :: rest =>
    let (a, command) := a.handle q.event q.view q.tool
    command.toList ++ a.commands rest

/-- The arbiter after a list of cues. -/
def after (a : Arbiter α) (cues : List (Cue α)) : Arbiter α :=
  cues.foldl (fun a q => (a.handle q.event q.view q.tool).1) a

/-- No event of the list releases the contact. -/
def Holds (pen : ContactId) (cues : List (Cue α)) : Prop :=
  ∀ q ∈ cues, q.event.contact = pen → q.event.phase.isRelease = false

theorem Drives.after (h : a.Drives pen) {cues : List (Cue α)} (hcues : Holds pen cues) :
    (a.after cues).Drives pen := by
  induction cues generalizing a with
  | nil => exact h
  | cons q rest ih =>
    obtain ⟨hq, hrest⟩ := List.forall_mem_cons.mp hcues
    exact ih (h.handle_of_held hq q.view q.tool) hrest

/-- A cue of the pen and one with the same scene give the same, whatever the tools are. -/
theorem Alike.handle_scene (hab : Alike pen a b) (ha : a.Drives pen) {q q' : Cue α}
    (hq : q.event.contact = pen) (hscene : q'.scene = q.scene) :
    (b.handle q'.event q'.view q'.tool).2 = (a.handle q.event q.view q.tool).2 ∧
      Alike pen (a.handle q.event q.view q.tool).1 (b.handle q'.event q'.view q'.tool).1 := by
  obtain ⟨hevent, hview⟩ := Prod.mk.inj hscene
  subst hq
  rw [hevent, hview]
  exact hab.handle ha q.view q.tool q'.tool

/-- The commands of a run are those of the events of the pen, up to the one that releases it. -/
theorem Alike.commands (hab : Alike pen a b) (ha : a.Drives pen) {before : List (Cue α)}
    {last : Cue α} (hbefore : Holds pen before) {solo : List (Cue α)}
    (hsolo : solo.map Cue.scene =
      ((before ++ [last]).filter fun q => q.event.contact = pen).map Cue.scene) :
    b.commands solo = a.commands (before ++ [last]) := by
  induction before generalizing a b solo with
  | nil =>
    rw [List.nil_append, List.filter_cons] at hsolo
    split at hsolo
    next hpen =>
      obtain ⟨q, rest, rfl, hscene, hrest⟩ := List.map_eq_cons_iff.mp hsolo
      obtain rfl := List.map_eq_nil_iff.mp hrest
      have hcommand := (hab.handle_scene ha (of_decide_eq_true hpen) hscene).1
      simp only [Arbiter.commands, List.nil_append, hcommand]
    next hother =>
      obtain rfl := List.map_eq_nil_iff.mp hsolo
      have hnone := (ha.handle_other (by simpa using hother) last.view last.tool).1
      simp only [Arbiter.commands, List.nil_append, hnone, Option.toList_none]
  | cons q rest ih =>
    obtain ⟨hq, hrest⟩ := List.forall_mem_cons.mp hbefore
    rw [List.cons_append, List.filter_cons] at hsolo
    split at hsolo
    next hpen =>
      obtain ⟨q', solo', rfl, hscene, hsolo'⟩ := List.map_eq_cons_iff.mp hsolo
      obtain ⟨hcommand, hnext⟩ := hab.handle_scene ha (of_decide_eq_true hpen) hscene
      simp only [Arbiter.commands, List.cons_append, hcommand]
      rw [ih hnext (ha.handle_of_held hq q.view q.tool) hrest hsolo']
    next hother =>
      obtain ⟨hnone, hnext⟩ := ha.handle_other (by simpa using hother) q.view q.tool
      simp only [Arbiter.commands, List.cons_append, hnone, Option.toList_none, List.nil_append]
      exact ih (hnext.symm.trans hab) (ha.of_alike hnext) hrest hsolo

end Arbiter
end InkCanvas
