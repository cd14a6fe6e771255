import InkCanvas.Proofs.Distance
import InkCanvas.Proofs.Gesture.Makers
import InkCanvas.Proofs.Session.Drawing
import InkCanvas.Proofs.Session.History

/-! # The stroke that a movement leaves

From a canvas where nothing is drawn, a contact that comes down, moves and is lifted adds one stroke: the
first position, of the others those that are far enough from the last one taken, and where it was lifted,
unless it was a mere tap (`Session.Reachable.stroke_of_movement`). -/

namespace InkCanvas

variable {α : Type} [Scalar α]

/-! ## What is taken of a movement -/

theorem isChain_spaced [LawfulDistance α] {δ : α} (hδ : Scalar.isFinite δ = true) {kept : Point α}
    {places : List (Point α)} (hfinite : ∀ p ∈ kept :: spaced δ kept places, p.isFinite = true) :
    (kept :: spaced δ kept places).IsChain fun p q => δ ≤ q.distance p := by
  induction places generalizing kept with
  | nil => exact .singleton kept
  | cons p places ih =>
    rw [spaced] at hfinite ⊢
    split at hfinite
    next hnear =>
      rw [if_pos hnear]
      exact ih hfinite
    next hfar =>
      rw [if_neg hfar]
      obtain ⟨hkept, hrest⟩ := List.forall_mem_cons.mp hfinite
      have hp : p.isFinite = true := hrest p List.mem_cons_self
      exact .cons_cons (Point.le_distance_of_not_lt hδ hp hkept hfar) (ih hrest)

namespace Contact

theorem startedAt_foldl_follow (c : Contact α) (events : List (Event α)) :
    (events.foldl follow c).startedAt = c.startedAt := by
  induction events generalizing c with
  | nil => rfl
  | cons e events ih => exact ih (c.follow e)

theorem updatedAt_foldl_follow (c : Contact α) (events : List (Event α)) :
    (events.foldl follow c).updatedAt = (events.map Event.time).foldl max c.updatedAt := by
  induction events generalizing c with
  | nil => rfl
  | cons e events ih => exact ih (c.follow e)

omit [Scalar α] in
/-- The time that a contact was down can be told without regard to the size of the clock. -/
theorem duration_le_iff (c : Contact α) (tap : UInt64) :
    c.duration ≤ tap ↔ c.updatedAt.toNat ≤ c.startedAt.toNat + tap.toNat := by
  unfold duration
  split
  next h =>
    rw [UInt64.le_iff_toNat_le] at h
    exact iff_of_true UInt64.zero_le (by omega)
  next h =>
    have hlt := UInt64.not_le.mp h
    rw [UInt64.le_iff_toNat_le, UInt64.toNat_sub_of_le _ _ (UInt64.le_of_lt hlt)]
    rw [UInt64.lt_iff_toNat_lt] at hlt
    omega

end Contact

theorem Viewport.isFinite_of_isFinite_toCanvas [LawfulScalar α] {v : Viewport α} {p : Point α}
    (h : (v.toCanvas p).isFinite = true) : p.isFinite = true := by
  obtain ⟨hx, hy⟩ := Point.isFinite_iff.mp h
  have hfinite {place shift scale : α} (h : Scalar.isFinite ((place - shift) / scale) = true) :
      Scalar.isFinite place = true :=
    (LawfulScalar.isFinite_of_sub (LawfulScalar.isFinite_of_div h)).1
  exact Point.isFinite_iff.mpr ⟨hfinite hx, hfinite hy⟩

/-- What one contact does from its press to its release. -/
structure Movement (α : Type) where
  press : Event α
  moves : List (Event α)
  release : Event α
  starts : press.phase = .start
  moving : ∀ m ∈ moves, m.contact = press.contact ∧ m.phase = .move
  releases : release.contact = press.contact ∧ release.phase.isRelease = true

namespace Movement

variable (m : Movement α) (c : Config α)

omit [Scalar α] in
/-- The calls that pass the events on. -/
def calls : List (Action α) := .handle m.press :: m.moves.map .handle ++ [.handle m.release]

/-- The moves that go far enough from what was taken before. -/
def kept : List (Point α) :=
  spaced c.minSampleDistance m.press.pos ((Contact.ofEvent m.press).places m.moves)

/-- Where the contact was last at a finite position. -/
def last : Point α := ((m.moves ++ [m.release]).foldl Contact.follow (.ofEvent m.press)).pos

omit [Scalar α] in
/-- The latest time that an event tells. -/
def latest : UInt64 := ((m.moves ++ [m.release]).map Event.time).foldl max m.press.time

/-- The contact stayed near its first position, and not for long. -/
def isTap : Bool :=
  (m.kept c).isEmpty &&
    decide (m.latest.toNat ≤ m.press.time.toNat + c.tapMaxDuration.toNat)

/-- The screen positions that are taken. -/
def taken : List (Point α) :=
  m.press.pos :: m.kept c ++
    if !m.isTap c && m.last != (m.kept c).getLastD m.press.pos then [m.last] else []

/-- The sketch that the movement draws until the contact is released. -/
def sketch (settings : Settings α) (view : Viewport α) : Sketch α :=
  m.moves.foldl (Sketch.moved c.minSampleDistance view) (.opened settings m.press view)

variable {m c} {settings : Settings α} {view : Viewport α}

theorem positions_sketch : (m.sketch c settings view).draft.samples.map Sample.pos =
    (m.press.pos :: m.kept c).map view.toCanvas :=
  (Sketch.foldl_moved (.opened settings m.press view) c.minSampleDistance view m.moves).2.2.1

theorem isEmpty_later_sketch :
    (m.sketch c settings view).draft.later.isEmpty = (m.kept c).isEmpty := by
  have hpositions : (m.sketch c settings view).draft.samples.map Sample.pos = _ := positions_sketch
  have hlength : (m.sketch c settings view).draft.later.length = (m.kept c).length := by
    simpa [Draft.samples] using congrArg List.length hpositions
  rw [Bool.eq_iff_iff, List.isEmpty_iff_length_eq_zero, List.isEmpty_iff_length_eq_zero, hlength]

theorem contact_sketch : (m.sketch c settings view).contact.follow m.release =
    (m.moves ++ [m.release]).foldl Contact.follow (.ofEvent m.press) := by
  rw [List.foldl_append]
  exact congrArg (Contact.follow · m.release)
    (Sketch.foldl_moved (.opened settings m.press view) c.minSampleDistance view m.moves).1

theorem kept_sketch : (m.sketch c settings view).kept = (m.kept c).getLastD m.press.pos :=
  (Sketch.foldl_moved (.opened settings m.press view) c.minSampleDistance view m.moves).2.2.2

/-- The release adds where the contact was last, unless the movement was a tap or ended where it was. -/
theorem last?_sketch : (m.sketch c settings view).last? c.tapMaxDuration view m.release =
    if !m.isTap c && m.last != (m.kept c).getLastD m.press.pos then
      some (Arbiter.sampleAt m.last m.release view)
    else
      none := by
  have htap : decide (((m.sketch c settings view).contact.follow m.release).duration ≤
      c.tapMaxDuration) =
        decide (m.latest.toNat ≤ m.press.time.toNat + c.tapMaxDuration.toNat) := by
    rw [decide_eq_decide, Contact.duration_le_iff, contact_sketch, Contact.startedAt_foldl_follow,
      Contact.updatedAt_foldl_follow]
    rfl
  rw [Sketch.last?, isEmpty_later_sketch, htap, kept_sketch, contact_sketch]
  rfl

theorem positions_finished :
    ((m.sketch c settings view).finished c.tapMaxDuration view m.release).samples.map Sample.pos =
      (m.taken c).map view.toCanvas := by
  rw [Sketch.finished, last?_sketch, taken]
  split
  next hlast =>
    split at hlast
    next hgives =>
      obtain rfl := Option.some.inj hlast
      rw [Draft.samples_extended, List.map_append, positions_sketch, if_pos hgives]
      simp [Arbiter.sampleAt]
    next => cases hlast
  next hlast =>
    split at hlast
    next => cases hlast
    next hgives =>
      rw [positions_sketch, if_neg hgives, List.append_nil]

theorem settings_finished :
    ((m.sketch c settings view).finished c.tapMaxDuration view m.release).settings = settings := by
  have hsettings : (m.sketch c settings view).draft.settings = settings :=
    (Sketch.foldl_moved (.opened settings m.press view) c.minSampleDistance view m.moves).2.1
  unfold Sketch.finished
  split
  next => exact hsettings
  next => exact hsettings

omit [Scalar α] in
theorem filterMap_moveOf? : (m.moves.map Action.handle).filterMap (Action.moveOf? m.press.contact) =
    m.moves := by
  rw [List.filterMap_map]
  refine (List.filterMap_congr fun e he => ?_).trans List.filterMap_some
  exact if_pos (m.moving e he)

theorem taken_of_isTap (h : m.isTap c = true) : m.taken c = [m.press.pos] := by
  have hkept := List.isEmpty_iff.mp (Bool.and_eq_true_iff.mp h).1
  rw [taken, h, hkept]
  rfl

end Movement

/-! ## The first event -/

namespace Arbiter

variable {a : Arbiter α} {e : Event α}

theorem begin_of_idle (hidle : a.gesture = .idle) (hphase : e.phase = .start)
    (hfinite : e.pos.isFinite = true) (hnew : a.contacts.get? e.contact = none)
    (h : e.device = .stylus ∨
      a.rules.touchMode = .drawWithFinger ∧ a.contacts.ofDevice .touch = []) (view : Viewport α) :
    (a.handle e view .pen).2 = some (.begin (sampleAt e.pos e view)) := by
  obtain ⟨contacts, hpress⟩ : ∃ contacts, a.contacts.press e = some (.ofEvent e, contacts) :=
    ⟨_, Contacts.press_of_isFinite hfinite hnew⟩
  cases hdevice : e.device with
  | stylus =>
    rw [handle_of_pen hphase hdevice hpress]
    simp only [onPen, hidle, startInking]
    rfl
  | touch =>
    obtain ⟨hmode, hlone⟩ := h.resolve_left (by simp [hdevice])
    have hresting : restingFinger? { a with contacts } e.contact = none := by
      rw [restingFinger?_of_press hpress, restingFinger?, hlone]
      rfl
    rw [hidle] at hresting
    rw [handle_of_finger hphase hdevice hpress]
    simp only [onFinger, hidle]
    rw [show (Contact.ofEvent e).id = e.contact from rfl, hresting, hmode]
    rfl

end Arbiter

namespace Session

variable {s : Session α} {e : Event α} {k : Sketch α}

/-! ## What the events leave alone -/

/-- The command grows a stroke, or opens one where none is drawn. -/
def OnlyDraws (s : Session α) (command : Option (Command α)) : Prop :=
  ∀ c, command = some c → (∃ next, c = .extend next) ∨ s.live = none ∧ ∃ first, c = .begin first

theorem OnlyDraws.exists_perform_eq (h : s.OnlyDraws (s.arbiter.handle e s.view s.settings.tool).2) :
    ∃ live revision arbiter, (s.perform (.handle e)).1 = { s with live, revision, arbiter } := by
  rw [perform_handle_fst]
  cases hcommand : (s.arbiter.handle e s.view s.settings.tool).2 with
  | none => exact ⟨s.live, s.revision, _, rfl⟩
  | some command =>
    rcases h command hcommand with ⟨next, rfl⟩ | ⟨hlive, first, rfl⟩
    · obtain ⟨live, revision, heq⟩ := s.exists_extendStroke_eq next
      refine ⟨live, revision, (s.arbiter.handle e s.view s.settings.tool).1, ?_⟩
      simp only [obey?, obey, heq]
    · obtain ⟨live, revision, heq⟩ := s.exists_beginStroke_eq first
      rw [finishStroke_of_none hlive] at heq
      refine ⟨live, revision, (s.arbiter.handle e s.view s.settings.tool).1, ?_⟩
      simp only [obey?, obey, heq]

theorem exists_run_moves_eq_of_draws {c : Contact α} {kept : Point α} {moved : Bool}
    (h : s.arbiter.Draws c kept moved) {moves : List (Event α)}
    (hmoves : ∀ m ∈ moves, m.contact = c.id ∧ m.phase = .move) : ∃ live revision arbiter,
      s.run (moves.map .handle) = { s with live, revision, arbiter } := by
  induction moves generalizing s c kept moved with
  | nil => exact ⟨s.live, s.revision, s.arbiter, rfl⟩
  | cons m moves ih =>
    obtain ⟨⟨hcontact, hphase⟩, hrest⟩ := List.forall_mem_cons.mp hmoves
    have hmove := h.handle_move hcontact hphase s.view s.settings.tool
    obtain ⟨honly, kept', moved', hdraws⟩ :
        s.OnlyDraws (s.arbiter.handle m s.view s.settings.tool).2 ∧ ∃ kept' moved',
          (s.arbiter.handle m s.view s.settings.tool).1.Draws (c.follow m) kept' moved' := by
      split at hmove
      next =>
        obtain ⟨hcommand, hdraws⟩ := hmove
        exact ⟨by rw [hcommand]; exact nofun, _, _, hdraws⟩
      next =>
        obtain ⟨hcommand, hdraws⟩ := hmove
        refine ⟨fun command hc => .inl ?_, _, _, hdraws⟩
        obtain rfl := Option.some.inj (hcommand.symm.trans hc)
        exact ⟨_, rfl⟩
    rw [← perform_handle_arbiter] at hdraws
    obtain ⟨live, revision, arbiter, hstep⟩ := honly.exists_perform_eq
    obtain ⟨live', revision', arbiter', hrun⟩ := ih hdraws hrest
    rw [List.map_cons, run_cons, hrun, hstep]
    exact ⟨live', revision', arbiter', rfl⟩

theorem Drawing.timeline_release (h : s.Drawing k) (hcontact : e.contact = k.contact.id)
    (hphase : e.phase.isRelease = true) {l : Live α} (hroom : 0 < s.limits.items)
    (hlast : (s.perform (.handle e)).1.strokes.getLast? = some ⟨s.committed + 1, l.stroke⟩) :
    (s.perform (.handle e)).1.timeline =
      (s.timeline.commitCapped s.limits (s.strokes ++ [⟨s.committed + 1, l.stroke⟩])).1 := by
  obtain ⟨m, hm, -⟩ := h.live
  have hcommand := h.arbiter.handle_release hcontact hphase s.view s.settings.tool
  obtain ⟨stroke, hcommits⟩ : ∃ stroke, s.commits? (.handle e) =
      some (s.strokes ++ [⟨s.committed + 1, stroke⟩]) := by
    rw [commits?, hcommand, Option.bind_some, commitsOn?, inked?, hm]
    exact ⟨_, rfl⟩
  have htimeline := s.perform_timeline (a := .handle e) (by simp) (by simp)
  rw [hcommits] at htimeline
  -- The stroke on top is the one that was committed.
  have htop := congrArg (fun t => t.present.getLast?) htimeline
  have hnewest : (newest s.limits.items (s.strokes ++ [(⟨s.committed + 1, stroke⟩ : Inked α)])).getLast? =
      some ⟨s.committed + 1, l.stroke⟩ := htop.symm.trans hlast
  rw [getLast?_newest_append hroom] at hnewest
  obtain rfl := congrArg Inked.stroke (Option.some.inj hnewest)
  exact htimeline

theorem Drawing.idle_release (h : s.Drawing k) (hcontact : e.contact = k.contact.id)
    (hphase : e.phase.isRelease = true) : (s.perform (.handle e)).1.gesture? = none := by
  have hcommand := h.arbiter.handle_release hcontact hphase s.view s.settings.tool
  have hover : ¬s.arbiter.Overruled e s.settings.tool := by
    rintro ⟨-, hstart, -⟩
    rw [hstart] at hphase
    cases hphase
  have hturn : Turn s.arbiter.gesture (s.arbiter.handle e s.view s.settings.tool).2 _ :=
    Arbiter.handle_turn hover
  rw [hcommand] at hturn
  rw [gesture?, perform_handle_arbiter, Arbiter.kind?, hturn.eq_idle_of_finish]
  rfl

/-- A contact that is not down yet comes down: a pen or, where fingers draw, a finger while no other
finger is down. -/
structure Admits (s : Session α) (e : Event α) : Prop where
  new : s.arbiter.contacts.get? e.contact = none
  draws : e.device = .stylus ∨
    s.config.touchMode = .drawWithFinger ∧ s.arbiter.contacts.ofDevice .touch = []

section Lawful

variable [LawfulScalar α] {m : Movement α}

/-- The press of a contact that may draw opens a stroke, and leaves all else as it is. -/
theorem Reachable.drawing_of_press (hs : s.Reachable) (hidle : s.gesture? = none)
    (hlive : s.live = none) (htool : s.settings.tool = .pen) (hadmits : s.Admits m.press)
    (hfinite : (s.view.toCanvas m.press.pos).isFinite = true) :
    (s.perform (.handle m.press)).1.Drawing (.opened s.settings m.press s.view) ∧
    ∃ live revision arbiter, (s.perform (.handle m.press)).1 = { s with live, revision, arbiter } := by
  have hdraws := hadmits.draws
  rw [show s.config.touchMode = s.arbiter.rules.touchMode by rw [hs.rules]; rfl] at hdraws
  have hpress := Viewport.isFinite_of_isFinite_toCanvas hfinite
  have hcommand := Arbiter.begin_of_idle (Gesture.eq_idle_of_kind? hidle) m.starts hpress hadmits.new
    hdraws s.view
  rw [← htool] at hcommand
  have hopens : s.Opens m.press := ⟨_, by rw [hcommand]; rfl⟩
  have honly : s.OnlyDraws (s.arbiter.handle m.press s.view s.settings.tool).2 := by
    intro command hc
    obtain rfl := Option.some.inj (hcommand.symm.trans hc)
    exact .inr ⟨hlive, _, rfl⟩
  exact ⟨(hopens.drawing hs.isPositive_width hfinite).1, honly.exists_perform_eq⟩

/-- Until its release a movement draws its sketch, and leaves all else as it is. -/
theorem Reachable.drawing_of_moves (hs : s.Reachable) (hidle : s.gesture? = none)
    (hlive : s.live = none) (htool : s.settings.tool = .pen) (hadmits : s.Admits m.press)
    (hfinite : ∀ p ∈ m.press.pos :: m.kept s.config, (s.view.toCanvas p).isFinite = true) :
    ∃ u : Session α, s.run (.handle m.press :: m.moves.map .handle) = u ∧
      u.Drawing (m.sketch s.config s.settings s.view) ∧
      ∃ live revision arbiter, u = { s with live, revision, arbiter } := by
  obtain ⟨hbegun, live, revision, arbiter, hpressed⟩ :=
    hs.drawing_of_press hidle hlive htool hadmits (hfinite _ List.mem_cons_self)
  have hview : (s.perform (.handle m.press)).1.view = s.view := by rw [hpressed]
  obtain ⟨live', revision', arbiter', hmoved⟩ :=
    exists_run_moves_eq_of_draws hbegun.arbiter m.moving
  have hspares : ∀ a ∈ m.moves.map Action.handle, a.Spares m.press.contact m.press.device := by
    rw [List.forall_mem_map]
    intro e he
    obtain ⟨hcontact, hphase⟩ := m.moving e he
    rw [Action.Spares, if_pos hcontact, hphase]
    rfl
  have hsamples : ∀ x ∈ (m.sketch s.config s.settings s.view).draft.samples, x.pos.isFinite = true := by
    intro x hx
    have hpos := List.mem_map_of_mem (f := Sample.pos) hx
    rw [m.positions_sketch] at hpos
    obtain ⟨p, hp, hpx⟩ := List.mem_map.mp hpos
    rw [← hpx]
    exact hfinite p hp
  have hdraw := hbegun.run hspares
  rw [(s.perform_rules (.handle m.press)).trans hs.rules, hview,
    show (Sketch.opened s.settings m.press s.view).contact.id = m.press.contact from rfl,
    m.filterMap_moveOf?] at hdraw
  refine ⟨_, run_cons .., (hdraw hsamples).1, live', revision', arbiter', ?_⟩
  rw [hmoved, hpressed]

omit [LawfulScalar α] in
/-- The release of a contact that draws commits its stroke. -/
theorem Drawing.exists_release (h : s.Drawing (m.sketch s.config s.settings s.view))
    (hs : s.Reachable) (hfinite : ∀ p ∈ m.taken s.config, (s.view.toCanvas p).isFinite = true) :
    let t := (s.perform (.handle m.release)).1
    ∃ stroke, t.timeline =
        (s.timeline.commitCapped s.limits (s.strokes ++ [⟨s.committed + 1, stroke⟩])).1 ∧
      t.committed = s.committed + 1 ∧ t.live = none ∧ t.gesture? = none ∧ t.view = s.view ∧
      ((m.sketch s.config s.settings s.view).finished s.config.tapMaxDuration s.view
        m.release).Inks stroke := by
  intro t
  have hcontact : m.release.contact = (m.sketch s.config s.settings s.view).contact.id :=
    m.releases.1.trans (Sketch.identity_foldl_moved (.opened s.settings m.press s.view)
      s.config.minSampleDistance s.view m.moves).1.symm
  have hlast : ∀ x, (m.sketch s.config s.settings s.view).last? s.arbiter.rules.tapMaxDuration s.view
      m.release = some x → x.pos.isFinite = true := by
    intro x hx
    rw [hs.rules, show s.config.gestureRules.tapMaxDuration = s.config.tapMaxDuration from rfl,
      m.last?_sketch] at hx
    obtain ⟨hgives, hx⟩ := Option.ite_none_right_eq_some.mp hx
    obtain rfl := Option.some.inj hx
    refine hfinite m.last (List.mem_append_right _ ?_)
    rw [if_pos hgives]
    exact List.mem_singleton_self m.last
  obtain ⟨l, hstroke, hcommits, hnone⟩ := h.release hs.items_pos hcontact m.releases.2 hlast
  rw [hs.rules] at hstroke
  exact ⟨l.stroke, h.timeline_release hcontact m.releases.2 hs.items_pos hcommits.last,
    hcommits.committed, hnone, h.idle_release hcontact m.releases.2, hcommits.view,
    Draft.inks_of_stroke hstroke⟩

end Lawful

variable [LawfulDistance α]

/-- While nothing is drawn and the pen is selected, a movement of a contact that may draw commits one
stroke and nothing else: through the positions that were taken, in the selected style. The stroke lies on
top of those that were there, the oldest gone if there are too many; one step back is the list as it was,
and there is no step forth. A tap is a dot, and positions that were taken before the release are apart
from one another. -/
theorem Reachable.stroke_of_movement (hs : s.Reachable) (hidle : s.gesture? = none)
    (hlive : s.live = none) (htool : s.settings.tool = .pen) (m : Movement α)
    (hadmits : s.Admits m.press)
    (hfinite : ∀ p ∈ m.taken s.config, (s.view.toCanvas p).isFinite = true) :
    let t := s.run m.calls
    ∃ stroke, t.timeline =
        (s.timeline.commitCapped s.limits (s.strokes ++ [⟨s.committed + 1, stroke⟩])).1 ∧
      t.strokes = newest s.limits.items (s.strokes ++ [⟨s.committed + 1, stroke⟩]) ∧
      t.timeline.past = (s.strokes :: s.timeline.past).take s.limits.depth ∧
      t.timeline.future = [] ∧
      t.committed = s.committed + 1 ∧ t.live = none ∧ t.gesture? = none ∧ t.view = s.view ∧
      stroke.positions = (m.taken s.config).map s.view.toCanvas ∧
      stroke.style = s.settings.style ∧ stroke.tool = .pen ∧
      (m.isTap s.config = true → stroke.isDot = true) ∧
      (m.press.pos :: m.kept s.config).IsChain fun p q =>
        s.config.minSampleDistance ≤ q.distance p := by
  intro t
  have hkept : ∀ p ∈ m.press.pos :: m.kept s.config, (s.view.toCanvas p).isFinite = true :=
    fun p hp => hfinite p (List.mem_append_left _ hp)
  obtain ⟨u, hrun, hdrawing, hframe⟩ := hs.drawing_of_moves hidle hlive htool hadmits hkept
  have hu : u.Reachable := by
    rw [← hrun]
    exact hs.run _
  have ht : t = (u.perform (.handle m.release)).1 := by
    rw [← hrun]
    simp only [t, Movement.calls, run_append, run_cons, run_nil]
  obtain ⟨live, revision, arbiter, rfl⟩ := hframe
  obtain ⟨stroke, htimeline, hcommitted, hnone, hgesture, hview, hinks⟩ :=
    hdrawing.exists_release hu hfinite
  have hpositions : stroke.positions = (m.taken s.config).map s.view.toCanvas := by
    rw [hinks.positions, m.positions_finished]
  have hpast := hs.past_commit (s.strokes ++ [⟨s.committed + 1, stroke⟩])
  rw [ht]
  refine ⟨stroke, htimeline, congrArg Timeline.present htimeline,
    (congrArg Timeline.past htimeline).trans hpast, congrArg Timeline.future htimeline, hcommitted,
    hnone, hgesture, hview, hpositions, ?_, ?_, ?_, ?_⟩
  · rw [hinks.style, m.settings_finished]
  · rw [hinks.tool, m.settings_finished, htool]
  · intro htap
    rw [m.taken_of_isTap htap] at hpositions
    have hlater : stroke.later.map Sample.pos = [] := (List.cons.inj hpositions).2
    rw [Stroke.isDot, List.map_eq_nil_iff.mp hlater]
    rfl
  · refine isChain_spaced hs.valid.finite_minSampleDistance fun p hp => ?_
    exact Viewport.isFinite_of_isFinite_toCanvas (hkept p hp)

/-- A pen goes far enough once, is then lost for a moment, and is lifted near its last sample but too late
for a tap. -/
theorem Reachable.stroke_of_movement_of_pen :
    let c : Config Float := Config.standard
    let pen (phase : Phase) (x : Float) (time : UInt64) : Event Float :=
      ⟨7, .stylus, phase, ⟨x, 0⟩, time, none⟩
    let m : Movement Float :=
      { press := pen .start 0 100
        moves := [pen .move 0.5 150, pen .move 5 140, pen .move (0 / 0) 260, pen .move 5.25 255]
        release := pen .cancel 5.5 250
        starts := rfl
        moving := by simp [pen]
        releases := ⟨rfl, rfl⟩ }
    let s := build c
    s.Admits m.press ∧ (m.taken c).length = 3 ∧ ∃ stroke,
      (s.run m.calls).timeline = (s.timeline.commitCapped s.limits [⟨1, stroke⟩]).1 ∧
        (s.run m.calls).strokes = [⟨1, stroke⟩] ∧ (s.run m.calls).timeline.past = [[]] ∧
        stroke.positions = (m.taken c).map s.view.toCanvas := by
  intro c pen m s
  have hc : ofConfig c = .ok (build c) :=
    ofConfig_eq_ok_iff.mpr ⟨Option.isNone_iff_eq_none.mp (by decide +kernel), rfl⟩
  have hs : s.Reachable := ⟨c, build c, [], hc, rfl⟩
  have hadmits : s.Admits m.press := ⟨rfl, .inl rfl⟩
  obtain ⟨stroke, htimeline, hstrokes, hpast, -, -, -, -, -, hpositions, -⟩ :=
    hs.stroke_of_movement rfl rfl rfl m hadmits (by decide +kernel)
  have hroom : newest s.limits.items ([] ++ [(⟨1, stroke⟩ : Inked Float)]) = [⟨1, stroke⟩] :=
    newest_eq_self hs.items_pos
  exact ⟨hadmits, by decide +kernel, stroke, htimeline, hstrokes.trans hroom, hpast, hpositions⟩

end Session
end InkCanvas
