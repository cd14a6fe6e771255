import InkCanvas.Proofs.Seen
import InkCanvas.Proofs.Session.Drawing

/-! # Ink appears under the contact

In exact arithmetic a stroke that is drawn through any viewport lies on the screen where the contact
was: while it is drawn and after it is committed, the frame shows the curve through the screen positions
that were taken, as wide as the selected width is seen (`Session.Reachable.ink_under_contact`). -/

namespace InkCanvas

/-- A stroke as it would be drawn on the screen itself, through positions there. -/
def Mark.drawn {α : Type} [Scalar α] (id : Option Nat) (settings : Settings α) (view : Viewport α)
    (positions : List (Point α)) : Mark α where
  id
  path := .through positions (settings.style.width * view.scale)
  color := settings.style.color
  width := settings.style.width * view.scale
  tool := settings.tool

/-- A stroke drawn on the screen itself, through the places where its samples are seen. -/
def Mark.onScreen {α : Type} [Scalar α] (id : Option Nat) (stroke : Stroke α) (view : Viewport α) :
    Mark α :=
  .drawn id ⟨stroke.tool, stroke.style⟩ view (stroke.positions.map view.toScreen)

theorem Mark.resolve_eq_onScreen {view : Viewport ℝ} (hview : view.WithinBounds) (id : Option Nat)
    (stroke : Stroke ℝ) : Mark.resolve id stroke.path stroke view = .onScreen id stroke view := by
  rw [resolve, Stroke.path, InkPath.transformed_through hview]
  rfl

noncomputable instance : DecidableEq (Point ℝ) := Classical.decEq _

theorem Point.bne_real {p q : Point ℝ} : (p != q) = true ↔ p ≠ q := by
  obtain ⟨x, y⟩ := p
  obtain ⟨x', y'⟩ := q
  change (!(x == x' && y == y')) = true ↔ _
  simp [imp_iff_not_or]

theorem Contact.places_real (c : Contact ℝ) (events : List (Event ℝ)) :
    c.places events = events.map Event.pos := by
  induction events generalizing c with
  | nil => rfl
  | cons e events ih => rw [places, ih]; rfl

/-- A stroke that was drawn through screen positions is seen where it was drawn. -/
theorem Mark.resolve_of_draft {view : Viewport ℝ} (hview : view.WithinBounds) {d : Draft ℝ}
    {stroke : Stroke ℝ} (h : d.stroke = .ok stroke) {positions : List (Point ℝ)}
    (hpositions : d.samples.map Sample.pos = positions.map view.toCanvas) (id : Option Nat) :
    Mark.resolve id stroke.path stroke view = .drawn id d.settings view positions := by
  have hinks := Draft.inks_of_stroke h
  have hback : (positions.map view.toCanvas).map view.toScreen = positions := by
    rw [List.map_map]
    exact List.map_id'' hview.toScreen_toCanvas positions
  rw [resolve_eq_onScreen hview, onScreen, hinks.positions, hpositions, hback, hinks.style, hinks.tool]

namespace Sketch

/-- The sketch is made of positions on the screen. -/
structure Takes (k : Sketch ℝ) (view : Viewport ℝ) (taken : List (Point ℝ)) : Prop where
  samples : k.draft.samples.map Sample.pos = taken.map view.toCanvas
  last : taken.getLast? = some k.kept

theorem takes_foldl_moved (δ : ℝ) (settings : Settings ℝ) (e : Event ℝ) (view : Viewport ℝ)
    (moves : List (Event ℝ)) :
    (moves.foldl (moved δ view) (opened settings e view)).Takes view
      (e.pos :: spaced δ e.pos (moves.map Event.pos)) := by
  obtain ⟨-, -, hsamples, hkept⟩ := foldl_moved (opened settings e view) δ view moves
  rw [Contact.places_real] at hsamples hkept
  refine ⟨hsamples, ?_⟩
  rw [hkept, List.getLast?_cons, List.getLastD_eq_getLast?]
  rfl

variable {k : Sketch ℝ} {view : Viewport ℝ} {taken : List (Point ℝ)}

theorem Takes.isEmpty_iff (h : k.Takes view taken) :
    k.draft.later.isEmpty = true ↔ taken.length = 1 := by
  have hlength := congrArg List.length h.samples
  rw [List.length_map, List.length_map, Draft.samples, List.length_cons] at hlength
  rw [List.isEmpty_iff_length_eq_zero]
  omega

/-- On release the last position is taken too, unless the stroke was a mere tap or ended there. -/
theorem Takes.finished (h : k.Takes view taken) (tap : UInt64) (e : Event ℝ) :
    (k.finished tap view e).settings = k.draft.settings ∧
    (k.finished tap view e).samples.map Sample.pos =
      (if (taken.length = 1 ∧ (k.contact.follow e).duration ≤ tap) ∨ taken.getLast? = some e.pos
        then taken else taken ++ [e.pos]).map view.toCanvas := by
  have htap : (k.draft.later.isEmpty && decide ((k.contact.follow e).duration ≤ tap)) = true ↔
      taken.length = 1 ∧ (k.contact.follow e).duration ≤ tap := by
    rw [Bool.and_eq_true, h.isEmpty_iff, decide_eq_true_iff]
  have hgives : (!(k.draft.later.isEmpty && decide ((k.contact.follow e).duration ≤ tap)) &&
      (k.contact.follow e).pos != k.kept) = true ↔
        ¬((taken.length = 1 ∧ (k.contact.follow e).duration ≤ tap) ∨
          taken.getLast? = some e.pos) := by
    have hpos : (k.contact.follow e).pos = e.pos := rfl
    rw [Bool.and_eq_true, Bool.not_eq_true', ← Bool.not_eq_true, htap, Point.bne_real, hpos, h.last,
      Option.some.injEq, ne_comm, not_or]
  by_cases hrest : (taken.length = 1 ∧ (k.contact.follow e).duration ≤ tap) ∨
      taken.getLast? = some e.pos
  · have hlast : k.last? tap view e = none := if_neg fun hgive => hgives.mp hgive hrest
    rw [Sketch.finished, hlast, if_pos hrest]
    exact ⟨rfl, h.samples⟩
  · have hlast : k.last? tap view e = some (Arbiter.sampleAt e.pos e view) :=
      if_pos (hgives.mpr hrest)
    rw [Sketch.finished, hlast, if_neg hrest, List.map_append, ← h.samples]
    exact ⟨rfl, by simp [Draft.samples_extended, Arbiter.sampleAt]⟩

end Sketch

namespace Session

theorem Reachable.frame_live {α : Type} [Scalar α] {s : Session α} (hs : s.Reachable) :
    s.frame.live = s.live.map fun l => Mark.resolve none l.stroke.path l.stroke s.view := by
  rw [hs.coherent.frame, redrawn, liveStroke?, Option.map_map]
  rfl

theorem Reachable.frame_last {α : Type} [Scalar α] {s : Session α} (hs : s.Reachable) :
    s.frame.strokes.getLast? = s.strokes.getLast?.map fun ink =>
      Mark.resolve (some ink.id) ink.stroke.path ink.stroke s.view := by
  rw [hs.coherent.frame, redrawn, List.getLast?_map]

section

variable {s t : Session ℝ} {k : Sketch ℝ} {taken : List (Point ℝ)} {e : Event ℝ}

/-- The stroke of a sketch is seen through the screen positions that the sketch takes. -/
theorem Drawing.frame_live (ht : t.Reachable) (h : t.Drawing k) (hk : k.Takes t.view taken) :
    t.frame.live = some (.drawn none k.draft.settings t.view taken) := by
  obtain ⟨l, hl, hstroke⟩ := h.live
  rw [ht.frame_live, hl, Option.map_some, Mark.resolve_of_draft ht.withinBounds hstroke hk.samples]

/-- When the contact is released the stroke of the sketch is seen on top of all others. -/
theorem Drawing.frame_release (ht : t.Reachable) (h : t.Drawing k) (hk : k.Takes t.view taken)
    (hcontact : e.contact = k.contact.id) (hphase : e.phase.isRelease = true) :
    (t.perform (.handle e)).1.frame.live = none ∧
    (t.perform (.handle e)).1.committed = t.committed + 1 ∧
    (t.perform (.handle e)).1.frame.strokes.getLast? =
      some (.drawn (some (t.committed + 1)) k.draft.settings t.view
        (if (taken.length = 1 ∧ (k.contact.follow e).duration ≤ t.config.tapMaxDuration) ∨
          taken.getLast? = some e.pos then taken else taken ++ [e.pos])) := by
  have hu : (t.perform (.handle e)).1.Reachable := ht.run [.handle e]
  obtain ⟨l, hstroke, hcommits, hnone⟩ := h.release ht.items_pos hcontact hphase fun _ _ => rfl
  rw [ht.rules] at hstroke
  change (k.finished t.config.tapMaxDuration t.view e).stroke = _ at hstroke
  obtain ⟨hsettings, hsamples⟩ := hk.finished t.config.tapMaxDuration e
  refine ⟨?_, hcommits.committed, ?_⟩
  · rw [hu.frame_live, hnone]
    rfl
  · rw [hu.frame_last, hcommits.last, Option.map_some, hcommits.view,
      Mark.resolve_of_draft ht.withinBounds hstroke hsamples, hsettings]

/-- From the event that opens it a stroke is drawn as a sketch of the positions that are taken. -/
theorem exists_drawing (hs : s.Reachable) (hopens : s.Opens e)
    {calls : List (Action ℝ)} (hcalls : ∀ a ∈ calls, a.Spares e.contact e.device) :
    let t := (s.perform (.handle e)).1.run calls
    let moves := calls.filterMap (Action.moveOf? e.contact)
    ∃ k : Sketch ℝ, t.Drawing k ∧ t.view = s.view ∧ k.draft.settings = s.settings ∧
      k.contact = moves.foldl Contact.follow (.ofEvent e) ∧ k.contact.id = e.contact ∧
      k.Takes s.view (e.pos :: spaced s.config.minSampleDistance e.pos (moves.map Event.pos)) := by
  intro t moves
  obtain ⟨hbegun, hview⟩ := hopens.drawing hs.isPositive_width rfl
  obtain ⟨hdrawing, hsame⟩ := hbegun.run hcalls fun _ _ => rfl
  rw [(s.perform_rules (.handle e)).trans hs.rules, hview] at hdrawing
  obtain ⟨hcontact, hsettings, -⟩ := Sketch.foldl_moved (.opened s.settings e s.view)
    s.config.minSampleDistance s.view moves
  have hid := (Sketch.identity_foldl_moved (.opened s.settings e s.view)
    s.config.minSampleDistance s.view moves).1
  exact ⟨_, hdrawing, hsame.trans hview, hsettings, hcontact, hid,
    Sketch.takes_foldl_moved s.config.minSampleDistance s.settings e s.view moves⟩

end

/-- A stroke that a contact draws is seen where the contact was. From the event that opens it, and
whatever calls that spare the contact and leave the canvas where it is come with its moves, it is
being drawn and the frame shows the curve through the screen positions that went far enough from one
another; and when the contact is released the stroke is committed as it was seen, on top of all
others, with the last position unless it was a mere tap or ended where its last sample was. -/
theorem Reachable.ink_under_contact {s : Session ℝ} (hs : s.Reachable) {e : Event ℝ}
    (hopens : s.Opens e) {calls : List (Action ℝ)} (hcalls : ∀ a ∈ calls, a.Spares e.contact e.device) :
    let t := (s.perform (.handle e)).1.run calls
    let moves := calls.filterMap (Action.moveOf? e.contact)
    let taken := e.pos :: spaced s.config.minSampleDistance e.pos (moves.map Event.pos)
    t.gesture? = some .draw ∧ t.frame.live = some (.drawn none s.settings s.view taken) ∧
    ∀ r : Event ℝ, r.contact = e.contact → r.phase.isRelease = true →
      let held := ((moves ++ [r]).foldl Contact.follow (.ofEvent e)).duration
      let all := if (taken.length = 1 ∧ held ≤ s.config.tapMaxDuration) ∨ taken.getLast? = some r.pos
        then taken else taken ++ [r.pos]
      (t.perform (.handle r)).1.frame.live = none ∧
      (t.perform (.handle r)).1.committed = t.committed + 1 ∧
      (t.perform (.handle r)).1.frame.strokes.getLast? =
        some (.drawn (some (t.committed + 1)) s.settings s.view all) := by
  intro t moves taken
  have ht : t.Reachable := (hs.run [.handle e]).run calls
  have hconfig : t.config = s.config := s.run_config (.handle e :: calls)
  obtain ⟨k, hdrawing, hview, hsettings, hcontact, hid, htakes⟩ := exists_drawing hs hopens hcalls
  rw [← hview] at htakes
  refine ⟨?_, ?_, ?_⟩
  · rw [gesture?, Arbiter.kind?, hdrawing.arbiter.gesture]
    rfl
  · rw [hdrawing.frame_live ht htakes, hsettings, hview]
  · intro r hr hrelease held all
    have hheld : (k.contact.follow r).duration = held := by
      rw [hcontact]
      simp only [held, List.foldl_append, List.foldl_cons, List.foldl_nil]
      rfl
    have hreleased := hdrawing.frame_release ht htakes (hr.trans hid.symm) hrelease
    rwa [hheld, hconfig, hsettings, hview] at hreleased

/-- A pen draws at twice the size: it moves, and rests while the eraser and another width are selected,
and is lifted farther on. -/
theorem Reachable.ink_under_contact_of_moves :
    let c : Config ℝ := { Config.standard with minScale := 2 }
    let s := (build c).run [.pan ⟨5, 5⟩]
    let event (phase : Phase) (x : ℝ) : Event ℝ := ⟨1, .stylus, phase, ⟨x, 0⟩, 0, none⟩
    let calls : List (Action ℝ) := [.handle (event .move 10), .setTool .eraser, .setWidth 7,
      .handle (event .move 10)]
    let t := (s.perform (.handle (event .start 0))).1.run calls
    s.Reachable ∧ t.frame.live = some (.drawn none s.settings s.view [⟨0, 0⟩, ⟨10, 0⟩]) ∧
      (t.perform (.handle (event .lift 20))).1.frame.strokes.getLast? =
        some (.drawn (some (t.committed + 1)) s.settings s.view [⟨0, 0⟩, ⟨10, 0⟩, ⟨20, 0⟩]) := by
  intro c s event calls t
  have hc : ofConfig c = .ok (build c) := by
    refine ofConfig_eq_ok_iff.mpr ⟨Config.fault?_eq_none_iff.mpr ?_, rfl⟩
    have hstrokes : (500 : UInt64) ≠ 0 := by decide
    have hhistory : (100 : UInt64) ≠ 0 := by decide
    constructor <;>
      norm_num [c, Config.standard, Scalar.isPositive, maxScale_real, hstrokes, hhistory]
  have hs : s.Reachable := ⟨c, build c, [.pan ⟨5, 5⟩], hc, rfl⟩
  have hcalls : ∀ a ∈ calls, a.Spares (event .start 0).contact (event .start 0).device := by
    simp [calls, event, Action.Spares, Phase.isRelease]
  have htaken : spaced s.config.minSampleDistance ⟨0, 0⟩ [(⟨10, 0⟩ : Point ℝ), ⟨10, 0⟩] =
      [⟨10, 0⟩] := by
    have hdistance : s.config.minSampleDistance = 1 := rfl
    have hfar : √(100 : ℝ) = 10 := by
      rw [show (100 : ℝ) = 10 ^ 2 by norm_num, Real.sqrt_sq (by norm_num)]
    norm_num [hdistance, spaced, Point.distance, Point.distanceSq, hfar]
  have hmoves : (calls.filterMap (Action.moveOf? 1)).map Event.pos = [⟨10, 0⟩, ⟨10, 0⟩] := rfl
  have hopens : s.Opens (event .start 0) := ⟨_, rfl⟩
  obtain ⟨-, hlive, hreleased⟩ := hs.ink_under_contact hopens hcalls
  obtain ⟨-, -, hlast⟩ := hreleased (event .lift 20) rfl rfl
  dsimp only [event] at hlive hlast
  rw [hmoves, htaken] at hlive hlast
  rw [if_neg (by simp)] at hlast
  exact ⟨hs, hlive, hlast⟩

end Session

end InkCanvas
