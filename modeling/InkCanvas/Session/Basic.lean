import InkCanvas.Eraser
import InkCanvas.Frame
import InkCanvas.Gesture.Arbiter
import InkCanvas.Path.Cache
import InkCanvas.Timeline

/-! # Ink sessions

A session is a canvas with everything that works on it: the strokes and their history, the stroke
that is being drawn, the viewport, the selected tool and style, the gestures. Its operations are
functions from a session to a session and a report; a report of failure goes with the session as
it was.

Each change that can be seen moves the revision, so a frame has to be painted anew only if the
revision did. -/

namespace InkCanvas

/-- Something that happened to the canvas without being asked for. -/
inductive Notice where
  /-- The canvas was full and lost its oldest strokes. -/
  | strokesTrimmed (count : Nat)
  deriving DecidableEq

/-- The pending notices after `count` strokes more were lost. A loss is added to the notice that
is pending already, so the host never finds more than one. -/
def Notice.addTrimmed (count : Nat) (pending : List Notice) : List Notice :=
  if count = 0 then pending
  else match pending.getLast? with
    | some (.strokesTrimmed before) => pending.dropLast ++ [.strokesTrimmed (before + count)]
    | none => [.strokesTrimmed count]

/-- A canvas and everything that works on it. -/
structure Session (α : Type) where
  /-- What the session was made with. -/
  config : Config α
  /-- The committed strokes, back to front, with their history. -/
  timeline : Timeline (List (Inked α))
  /-- The stroke that is being drawn. -/
  live : Option (Live α)
  /-- How the canvas lies on the screen. -/
  view : Viewport α
  settings : Settings α
  arbiter : Arbiter α
  /-- The curves of the strokes on the canvas and in its history. -/
  cache : PathCache α
  /-- What the host has not been told yet. -/
  notices : List Notice
  /-- Moves with every change that can be seen, and wraps around. -/
  revision : UInt64
  /-- How many strokes have been committed; the next one gets the number after. -/
  committed : Nat

namespace Session

variable {α : Type}

/-- The committed strokes, back to front. -/
def strokes (s : Session α) : List (Inked α) := s.timeline.present

/-- How much the canvas keeps. -/
def limits (s : Session α) : Limits := ⟨s.config.maxStrokes.toNat, s.config.maxHistory.toNat⟩

/-- The kind of the gesture that is going on. -/
def gesture? (s : Session α) : Option GestureKind := s.arbiter.kind?

/-- The stroke that is being drawn. -/
def liveStroke? (s : Session α) : Option (Stroke α) := s.live.map Live.stroke

/-- The revision moves on. -/
def touch (s : Session α) : Session α := { s with revision := s.revision + 1 }

/-- A new list of committed strokes. The oldest are dropped if there are too many, and curves
are kept for the strokes that the list or its history still holds. -/
def commit (s : Session α) (strokes : List (Inked α)) : Session α :=
  let (timeline, trimmed) := s.timeline.commitCapped s.limits strokes
  { s with
    timeline
    notices := Notice.addTrimmed trimmed s.notices
    cache := s.cache.retain ((timeline.present ++ timeline.others).map Inked.id) }.touch

/-! ## History -/

/-- One step back. -/
def undo (s : Session α) : Session α × Bool :=
  match s.timeline.undo? with
  | some timeline => ({ s with timeline }.touch, true)
  | none => (s, false)

/-- One step forth. -/
def redo (s : Session α) : Session α × Bool :=
  match s.timeline.redo? with
  | some timeline => ({ s with timeline }.touch, true)
  | none => (s, false)

/-- All strokes are removed, as one step. -/
def clear (s : Session α) : Session α × Bool :=
  if s.strokes.isEmpty then (s, false) else (s.commit [], true)

/-! ## Tool settings -/

/-- Another tool is selected. -/
def setTool (s : Session α) (tool : Tool) : Session α :=
  { s with settings := { s.settings with tool } }

/-- Another color is selected. -/
def setColor (s : Session α) (color : Color) : Session α :=
  { s with settings := { s.settings with style := { s.settings.style with color } } }

/-- The pending notices, which are pending no longer. -/
def takeNotices (s : Session α) : Session α × List Notice := ({ s with notices := [] }, s.notices)

/-- The stroke that is being drawn is dropped. -/
def cancelStroke (s : Session α) : Session α × Bool :=
  if s.live.isSome then ({ s with live := none }.touch, true) else (s, false)

variable [Scalar α]

/-- The session that a valid configuration makes. -/
def build (c : Config α) : Session α where
  config := c
  timeline := .single []
  live := none
  view := .withBounds c.minScale c.maxScale
  settings := ⟨.pen, c.defaultColor, c.defaultWidth⟩
  arbiter := .ofConfig c
  cache := .empty
  notices := []
  revision := 0
  committed := 0

/-- The session of a configuration, refused if the configuration breaks a rule. -/
def ofConfig (c : Config α) : Except (InkError α) (Session α) := build <$> c.validate

/-- Another width is selected, unless it is not finite and positive. -/
def setWidth (s : Session α) (width : α) : Session α × Bool :=
  if Scalar.isPositive width then
    ({ s with settings := { s.settings with style := { s.settings.style with width } } }, true)
  else
    (s, false)

/-! ## Strokes -/

/-- The stroke that is being drawn is committed under the next number. -/
def finishStroke (s : Session α) : Session α × Option Nat :=
  match s.live with
  | none => (s, none)
  | some l =>
    let id := s.committed + 1
    ({ s with
        live := none
        committed := id
        cache := (s.cache.getOrBuild id l.stroke).2 }.commit (s.strokes ++ [Inked.mk id l.stroke]),
      some id)

/-- A stroke is opened; one that is being drawn is committed first. -/
def beginStroke (s : Session α) (first : Sample α) : Session α × Bool :=
  let s := s.finishStroke.1
  match Live.start first s.settings with
  | .ok l => ({ s with live := some l }.touch, true)
  | .error _ => (s, false)

/-- The stroke that is being drawn gets one sample more. -/
def extendStroke (s : Session α) (next : Sample α) : Session α × Bool :=
  match s.live with
  | none => (s, false)
  | some l =>
    match l.extend next with
    | .ok l => ({ s with live := some l }.touch, true)
    | .error _ => (s, false)

/-- The strokes around a canvas point are removed, as one step; how many. -/
def eraseAt (s : Session α) (p : Point α) : Session α × Nat :=
  match Eraser.erase s.strokes p s.config.eraserRadius with
  | .ok (some remaining) => (s.commit remaining, s.strokes.length - remaining.length)
  | .ok none | .error _ => (s, 0)

/-! ## Viewport -/

/-- The canvas is displaced on the screen. -/
def pan (s : Session α) (delta : Point α) : Session α × Bool :=
  match s.view.pan delta with
  | .ok view => ({ s with view }.touch, true)
  | .error _ => (s, false)

/-- The canvas is scaled about a screen point. -/
def zoom (s : Session α) (factor : α) (anchor : Point α) : Session α × Bool :=
  match s.view.zoomAt anchor factor with
  | .ok (some view) => ({ s with view }.touch, true)
  | .ok none | .error _ => (s, false)

/-- The canvas goes back to the corner of the screen. -/
def resetView (s : Session α) : Session α := { s with view := s.view.reset }.touch

/-! ## Gestures -/

/-- What a gesture asks for is done; whether it changed anything. -/
def obey (s : Session α) : Command α → Session α × Bool
  | .begin p => s.beginStroke p
  | .extend p => s.extendStroke p
  | .finish last =>
    let s := match last with
      | some p => (s.extendStroke p).1
      | none => s
    let (s, id) := s.finishStroke
    (s, id.isSome)
  | .cancel => s.cancelStroke
  | .restart p =>
    let (s, dropped) := s.cancelStroke
    let (s, begun) := s.beginStroke p
    (s, begun || dropped)
  | .erase p =>
    let (s, removed) := s.eraseAt p
    (s, decide (0 < removed))
  | .view view => if view == s.view then (s, false) else ({ s with view }.touch, true)

/-- What a gesture asks for, if it asks for anything, is done. -/
def obey? (s : Session α) : Option (Command α) → Session α × Bool
  | some command => s.obey command
  | none => (s, false)

/-- An event of a contact; whether it changed anything. -/
def handle (s : Session α) (e : Event α) : Session α × Bool :=
  let (arbiter, command) := s.arbiter.handle e s.view s.settings.tool
  { s with arbiter }.obey? command

/-- All contacts are gone; a stroke that is being drawn is committed. -/
def interrupt (s : Session α) : Session α × Bool :=
  let (arbiter, command) := s.arbiter.interrupt
  let (s, changed) := { s with arbiter }.obey? command
  let (s, id) := s.finishStroke
  (s, changed || id.isSome)

/-! ## What the session shows -/

/-- All there is to paint. -/
def frame (s : Session α) : Frame α where
  strokes := s.strokes.map fun ink =>
    Mark.resolve (some ink.id) ((s.cache.get? ink.id).getD ink.stroke.path) ink.stroke s.view
  live := s.live.map fun l => Mark.resolve none l.trail.path l.stroke s.view
  view := s.view
  revision := s.revision

end Session

end InkCanvas
