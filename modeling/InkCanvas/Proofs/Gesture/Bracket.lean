import InkCanvas.Proofs.Gesture.Palm

/-! # The order of commands

In the commands of an arbiter a stroke is open from the one that begins it to the one that commits or
drops it (`Command.openAfter`). Whatever an arbiter is told, it extends, commits, drops or replaces a
stroke only while one is open, and one is open as long as a contact draws; it shows another viewport only
while fingers navigate, and erases only when a contact then erases (`Arbiter.told_bracketed`). -/

namespace InkCanvas

variable {α : Type}

/-- What an arbiter may be told. -/
inductive Signal (α : Type) where
  | cue (q : Cue α)
  | interruption

namespace Command

/-- The command is about the stroke that is open. -/
def needsOpen : Command α → Bool
  | .extend _ | .finish _ | .cancel | .restart _ => true
  | .begin _ | .erase _ | .view _ => false

/-- Whether a stroke is open after the command, if `wasOpen` tells whether one was before it. -/
def leavesOpen (wasOpen : Bool) : Command α → Bool
  | .begin _ | .restart _ => true
  | .finish _ | .cancel => false
  | .extend _ | .erase _ | .view _ => wasOpen

/-- Whether a stroke is open after the commands, if `wasOpen` tells whether one was before them. -/
def openAfter (wasOpen : Bool) (commands : List (Command α)) : Bool :=
  commands.foldl leavesOpen wasOpen

/-- The command may come while a stroke is open or not, between gestures of the given kinds. -/
structure Fits (isOpen : Bool) (before after : Option GestureKind) (command : Command α) : Prop where
  brackets : command.needsOpen = true → isOpen = true
  navigates : ∀ v, command = .view v →
    (before = some .pan ∨ before = some .pinch) ∧ (after = some .pan ∨ after = some .pinch)
  erases : ∀ p, command = .erase p → after = some .erase

end Command

variable {isOpen : Bool}

theorem Turn.fits {g g' : Gesture α} {command : Command α} (h : Turn g (some command) g')
    (hopen : g.kind? = some .draw → isOpen = true) : command.Fits isOpen g.kind? g'.kind? := by
  cases h with
  | begin => exact ⟨nofun, nofun, nofun⟩
  | restart | extend | cancel => exact ⟨fun _ => hopen rfl, nofun, nofun⟩
  | finish draws => exact ⟨fun _ => hopen draws, nofun, nofun⟩
  | erase => exact ⟨nofun, nofun, fun _ _ => rfl⟩
  | view navigates => exact ⟨nofun, fun _ _ => ⟨navigates, navigates⟩, nofun⟩

theorem Turn.open_of_draw {g g' : Gesture α} {command : Option (Command α)} (h : Turn g command g')
    (hopen : g.kind? = some .draw → isOpen = true) (hdraw : g'.kind? = some .draw) :
    Command.openAfter isOpen command.toList = true := by
  cases h with
  | rest => exact hopen hdraw
  | steer _ after => exact absurd hdraw after
  | begin | restart => rfl
  | extend => exact hopen rfl
  | finish | erase => cases hdraw
  | cancel _ _ pinches => rw [pinches] at hdraw; cases hdraw
  | view => exact hopen hdraw

namespace Arbiter

/-- The command of an answer fits, and a stroke is open after it if a contact draws then. -/
structure Bracketed (isOpen : Bool) (a : Arbiter α) (r : Arbiter α × Option (Command α)) : Prop where
  fits : ∀ command, r.2 = some command → command.Fits isOpen a.kind? r.1.kind?
  draws : r.1.kind? = some .draw → Command.openAfter isOpen r.2.toList = true

theorem interrupt_snd (a : Arbiter α) :
    a.interrupt.2 = if a.kind? = some .draw then some (.finish none) else none := by
  unfold interrupt kind?
  cases a.gesture with
  | inking id tool kept moved => cases tool <;> rfl
  | idle | panning | pinching => rfl

theorem bracketed_interrupt {a : Arbiter α} (hopen : a.kind? = some .draw → isOpen = true) :
    a.Bracketed isOpen a.interrupt := by
  refine ⟨fun command h => ?_, nofun⟩
  rw [interrupt_snd] at h
  obtain ⟨hdraws, hfinish⟩ := Option.ite_none_right_eq_some.mp h
  obtain rfl := Option.some.inj hfinish
  exact ⟨fun _ => hopen hdraws, nofun, nofun⟩

variable [Scalar α]

theorem bracketed_handle {a : Arbiter α} (hopen : a.kind? = some .draw → isOpen = true)
    (e : Event α) (view : Viewport α) (tool : Tool) :
    a.Bracketed isOpen (a.handle e view tool) := by
  by_cases hover : a.Overruled e tool
  · have hcommand : (a.handle e view tool).2 = _ := (handle_of_overruled hover).1
    have hkind : (a.handle e view tool).1.kind? = some .erase :=
      congrArg Gesture.kind? (handle_of_overruled hover).2
    constructor
    · intro command h
      obtain rfl := Option.some.inj (hcommand.symm.trans h)
      exact ⟨nofun, nofun, fun _ _ => hkind⟩
    · intro hdraw
      rw [hkind] at hdraw
      cases hdraw
  · have hturn : Turn a.gesture (a.handle e view tool).2 _ := handle_turn hover
    constructor
    · intro command h
      rw [h] at hturn
      exact hturn.fits hopen
    · exact hturn.open_of_draw hopen

/-! ## Runs -/

/-- The answer to a signal. -/
def respond (a : Arbiter α) : Signal α → Arbiter α × Option (Command α)
  | .cue q => a.handle q.event q.view q.tool
  | .interruption => a.interrupt

/-- The arbiter after a list of signals. -/
def told (a : Arbiter α) (signals : List (Signal α)) : Arbiter α :=
  signals.foldl (fun a signal => (a.respond signal).1) a

/-- The commands that a list of signals gives. -/
def replies (a : Arbiter α) : List (Signal α) → List (Command α)
  | [] => []
  | signal :: rest => (a.respond signal).2.toList ++ (a.respond signal).1.replies rest

theorem bracketed_respond {a : Arbiter α} (hopen : a.kind? = some .draw → isOpen = true)
    (signal : Signal α) : a.Bracketed isOpen (a.respond signal) := by
  cases signal with
  | cue q => exact bracketed_handle hopen q.event q.view q.tool
  | interruption => exact bracketed_interrupt hopen

theorem open_of_draw_told {a : Arbiter α} (hopen : a.kind? = some .draw → isOpen = true)
    (signals : List (Signal α)) (hdraw : (a.told signals).kind? = some .draw) :
    Command.openAfter isOpen (a.replies signals) = true := by
  induction signals generalizing a isOpen with
  | nil => exact hopen hdraw
  | cons signal rest ih =>
    have hnext := ih (bracketed_respond hopen signal).draws hdraw
    rwa [replies, Command.openAfter, List.foldl_append]

/-- Over every list of signals, with any configuration, viewports and tools: while a contact draws a
stroke is open; an interruption commits a stroke exactly while a contact draws, and does nothing
otherwise; a stroke is extended, committed, dropped or replaced only while one is open; another viewport
is shown only between gestures that navigate; and what erases then is a gesture that erases. -/
theorem told_bracketed (c : Config α) (signals : List (Signal α)) :
    let a := (ofConfig c).told signals
    let isOpen := Command.openAfter false ((ofConfig c).replies signals)
    (a.kind? = some .draw → isOpen = true) ∧
    (a.respond .interruption).2 = (if a.kind? = some .draw then some (.finish none) else none) ∧
    ∀ signal command, (a.respond signal).2 = some command →
      command.Fits isOpen a.kind? (a.respond signal).1.kind? := by
  intro a isOpen
  have hidle : (ofConfig c).kind? = some .draw → false = true := nofun
  have hdraw : a.kind? = some .draw → isOpen = true := open_of_draw_told hidle signals
  refine ⟨hdraw, a.interrupt_snd, fun signal command h => ?_⟩
  exact (bracketed_respond hdraw signal).fits command h

/-- A finger draws and is joined by another one, which drops its stroke; then a pen draws, and rests
while the eraser is selected. -/
theorem told_bracketed_of_pinch_and_pen :
    let c : Config Float := { Config.standard with touchMode := .drawWithFinger }
    let view : Viewport Float := .withBounds c.minScale c.maxScale
    let cue (id : ContactId) (device : Device) (phase : Phase) (x : Float) (tool : Tool) :
        Signal Float := .cue ⟨⟨id, device, phase, ⟨x, 0⟩, 0, none⟩, view, tool⟩
    let signals := [cue 1 .touch .start 0 .pen, cue 2 .touch .start 50 .pen,
      cue 2 .touch .move 70 .pen, cue 3 .stylus .start 10 .pen, cue 3 .stylus .move 20 .eraser]
    let a := (ofConfig c).told signals
    ((ofConfig c).replies signals).length = 5 ∧ a.kind? = some .draw ∧
      Command.openAfter false ((ofConfig c).replies signals) = true ∧
      (a.respond .interruption).2 = some (.finish none) := by
  intro c view cue signals a
  have hkind : a.kind? = some .draw := by decide +kernel
  obtain ⟨hopen, hinterrupt, -⟩ := told_bracketed c signals
  refine ⟨by decide +kernel, hkind, hopen hkind, ?_⟩
  exact hinterrupt.trans (if_pos hkind)

end Arbiter
end InkCanvas
