import InkCanvas.Config
import InkCanvas.Gesture.Contacts

/-! # Which gesture the contacts make

The arbiter turns events into commands. It follows the contacts and knows the one gesture that is
going on.

* A pen draws, or erases if the eraser is selected, and takes over from fingers that navigate and
  from a finger that draws. While it draws, every other contact rests.
* A finger pans, or draws where the configuration says so. A second finger makes the two a pinch,
  unless the first has drawn already; then it rests.
* When one finger of a pinch is lifted, the other pans on.

`Arbiter.handle` takes one event and `Arbiter.interrupt` ends everything at once. -/

namespace InkCanvas

/-- What the contacts on the screen are doing together. -/
inductive GestureKind where
  | draw
  | erase
  /-- A finger moves the canvas. -/
  | pan
  /-- Two fingers move and scale the canvas. -/
  | pinch
  deriving DecidableEq

/-- A change of the canvas that a gesture asks for. -/
inductive Command (α : Type) where
  /-- Open a stroke. -/
  | begin (s : Sample α)
  /-- Add a sample to the open stroke. -/
  | extend (s : Sample α)
  /-- Commit the open stroke, after a last sample if there is one. -/
  | finish (last : Option (Sample α))
  /-- Drop the open stroke. -/
  | cancel
  /-- Drop the open stroke and open another. -/
  | restart (s : Sample α)
  | erase (p : Point α)
  /-- Show the canvas through another viewport. -/
  | view (v : Viewport α)

/-- The gesture that is going on. -/
inductive Gesture (α : Type) where
  | idle
  /-- A contact draws or erases. `kept` is the screen position of the last sample it gave, and
  `moved` tells whether it gave one after the first. -/
  | inking (contact : ContactId) (tool : Tool) (kept : Point α) (moved : Bool)
  /-- A finger pans; at `origin` the viewport was `base`. -/
  | panning (contact : ContactId) (origin : Point α) (base : Viewport α)
  /-- Two fingers pinch; when they were `distance` apart around `mid` the viewport was `base`. -/
  | pinching (first second : ContactId) (mid : Point α) (distance : α) (base : Viewport α)

/-- The kind of a gesture, if there is one. -/
def Gesture.kind? {α : Type} : Gesture α → Option GestureKind
  | .idle => none
  | .inking _ .pen _ _ => some .draw
  | .inking _ .eraser _ _ => some .erase
  | .panning .. => some .pan
  | .pinching .. => some .pinch

/-- The part of a configuration that decides about gestures. -/
structure GestureRules (α : Type) where
  touchMode : TouchMode
  minSampleDistance : α
  tapMaxDuration : UInt64

/-- The contacts that are down, and the gesture they make. -/
structure Arbiter (α : Type) where
  rules : GestureRules α
  /-- The contacts that are down. -/
  contacts : Contacts α
  gesture : Gesture α

variable {α : Type}

/-- What decides about gestures under a configuration. -/
def Config.gestureRules (c : Config α) : GestureRules α :=
  ⟨c.touchMode, c.minSampleDistance, c.tapMaxDuration⟩

namespace Arbiter

/-- The arbiter before any event. -/
def ofConfig (c : Config α) : Arbiter α := ⟨c.gestureRules, .none, .idle⟩

/-- The kind of the gesture that is going on. -/
def kind? (a : Arbiter α) : Option GestureKind := a.gesture.kind?

/-- No gesture is going on. -/
def isIdle (a : Arbiter α) : Bool := a.kind?.isNone

/-- A finger other than `id` that is down, the one pressed first. -/
def restingFinger? (a : Arbiter α) (id : ContactId) : Option ContactId :=
  ((a.contacts.ofDevice .touch).map Contact.id).find? (· != id)

/-- All contacts are gone and no gesture is going on. A stroke that was being drawn is committed
as it is. -/
def interrupt (a : Arbiter α) : Arbiter α × Option (Command α) :=
  ({ a with contacts := .none, gesture := .idle },
    match a.gesture with
    | .inking _ .pen _ _ => some (.finish none)
    | _ => none)

variable [Scalar α]

/-- The sample of ink that an event gives at a screen position. -/
def sampleAt (pos : Point α) (e : Event α) (view : Viewport α) : Sample α :=
  ⟨view.toCanvas pos, e.time, e.pressure⟩

/-- The contact begins to draw or to erase. -/
def startInking (a : Arbiter α) (c : Contact α) (e : Event α) (view : Viewport α) (tool : Tool) :
    Arbiter α × Command α :=
  ({ a with gesture := .inking c.id tool c.pos false },
    match tool with
    | .pen => .begin (sampleAt c.pos e view)
    | .eraser => .erase (view.toCanvas c.pos))

/-- The two contacts begin to pinch, if both are down. -/
def startPinch (a : Arbiter α) (first second : ContactId) (view : Viewport α) : Arbiter α :=
  match a.contacts.get? first, a.contacts.get? second with
  | some p, some q =>
    { a with
      gesture := .pinching first second (p.pos.midpoint q.pos) (p.pos.distance q.pos) view }
  | _, _ => a

/-- A pen came down. -/
def onPen (a : Arbiter α) (c : Contact α) (e : Event α) (view : Viewport α) (tool : Tool) :
    Arbiter α × Option (Command α) :=
  match a.gesture with
  | .idle | .panning .. | .pinching .. =>
    let (a, command) := a.startInking c e view tool
    (a, some command)
  | .inking drawing held _ moved =>
    if a.contacts.isFinger drawing then
      let (a, command) := a.startInking c e view tool
      -- A finger that drew nothing yet was resting, so its stroke is dropped.
      match command, held, moved with
      | .begin s, .pen, false => (a, some (.restart s))
      | _, _, _ => (a, some command)
    else
      (a, none)

/-- A finger came down. -/
def onFinger (a : Arbiter α) (c : Contact α) (e : Event α) (view : Viewport α) (tool : Tool) :
    Arbiter α × Option (Command α) :=
  match a.gesture with
  | .idle =>
    -- A finger left down through a stroke of the pen pinches with the new one.
    match a.restingFinger? c.id with
    | some first => (a.startPinch first c.id view, none)
    | none =>
      match a.rules.touchMode with
      | .panOnly => ({ a with gesture := .panning c.id c.pos view }, none)
      | .drawWithFinger =>
        let (a, command) := a.startInking c e view tool
        (a, some command)
  | .panning first .. => (a.startPinch first c.id view, none)
  | .inking drawing held _ moved =>
    if !moved && a.contacts.isFinger drawing then
      -- The first finger drew nothing yet, so the two are a pinch.
      (a.startPinch drawing c.id view,
        match held with
        | .pen => some .cancel
        | .eraser => none)
    else
      (a, none)
  | .pinching .. => (a, none)

/-- A contact that is down moved. -/
def onMove (a : Arbiter α) (c : Contact α) (e : Event α) (view : Viewport α) :
    Arbiter α × Option (Command α) :=
  match a.gesture with
  | .idle => (a, none)
  | .inking drawing .eraser _ _ =>
    if drawing = c.id then
      ({ a with gesture := .inking drawing .eraser c.pos true },
        some (.erase (view.toCanvas c.pos)))
    else
      (a, none)
  | .inking drawing .pen kept _ =>
    if drawing = c.id ∧ ¬c.pos.distance kept < a.rules.minSampleDistance then
      ({ a with gesture := .inking drawing .pen c.pos true },
        some (.extend (sampleAt c.pos e view)))
    else
      (a, none)
  | .panning finger origin base =>
    if finger = c.id then
      (a, (base.pan (c.pos - origin)).toOption.map .view)
    else
      (a, none)
  | .pinching first second mid distance base =>
    if first = c.id ∨ second = c.id then
      (a, do
        let p := (← a.contacts.get? first).pos
        let q := (← a.contacts.get? second).pos
        let ratio := if Scalar.epsilon < distance then p.distance q / distance else 1
        (base.pinched mid (p.midpoint q) ratio).toOption.map .view)
    else
      (a, none)

/-- A contact was lifted or taken away; it is no longer among the contacts. -/
def onRelease (a : Arbiter α) (c : Contact α) (e : Event α) (view : Viewport α) :
    Arbiter α × Option (Command α) :=
  match a.gesture with
  | .idle => (a, none)
  | .inking drawing tool kept moved =>
    if drawing = c.id then
      ({ a with gesture := .idle },
        match tool with
        | .eraser => none
        | .pen =>
          let isTap := !moved && decide (c.duration ≤ a.rules.tapMaxDuration)
          some (.finish (if !isTap && c.pos != kept then some (sampleAt c.pos e view) else none)))
    else
      (a, none)
  | .panning finger .. =>
    (if finger = c.id then { a with gesture := .idle } else a, none)
  | .pinching first second .. =>
    if first = c.id ∨ second = c.id then
      let remaining := if first = c.id then second else first
      match a.contacts.get? remaining with
      | some rest => ({ a with gesture := .panning remaining rest.pos view }, none)
      | none => ({ a with gesture := .idle }, none)
    else
      (a, none)

/-- The arbiter after one event, and the command that the event gives. An event that does not fit
the contacts that are down (a press of one that is down, or any other event of one that is not)
changes nothing. -/
def handle (a : Arbiter α) (e : Event α) (view : Viewport α) (tool : Tool) :
    Arbiter α × Option (Command α) :=
  match e.phase with
  | .start =>
    match a.contacts.press e with
    | none => (a, none)
    | some (c, contacts) =>
      match c.device with
      | .stylus => { a with contacts }.onPen c e view tool
      | .touch => { a with contacts }.onFinger c e view tool
  | .move =>
    match a.contacts.update e with
    | none => (a, none)
    | some (c, contacts) => { a with contacts }.onMove c e view
  | .lift | .cancel =>
    match a.contacts.release e with
    | none => (a, none)
    | some (c, contacts) => { a with contacts }.onRelease c e view

end Arbiter

end InkCanvas
