import InkCanvas.Session.Basic

/-! # Sessions as runs of actions

An action is one call of the host. `Session.perform` does it and reports, and `Session.run` does
a list of them. -/

namespace InkCanvas

/-- One call of the host. -/
inductive Action (α : Type) where
  | beginStroke (first : Sample α)
  | extendStroke (next : Sample α)
  /-- Commit the open stroke. -/
  | finishStroke
  /-- Drop the open stroke. -/
  | cancelStroke
  | eraseAt (p : Point α)
  /-- Take one step back. -/
  | undo
  /-- Take one step forth. -/
  | redo
  | clear
  | setTool (tool : Tool)
  | setColor (color : Color)
  | setWidth (width : α)
  /-- Displace the canvas. -/
  | pan (delta : Point α)
  /-- Scale the canvas about a screen point. -/
  | zoom (factor : α) (anchor : Point α)
  /-- Put the canvas back. -/
  | resetView
  | handle (e : Event α)
  /-- End everything that is going on. -/
  | interrupt
  /-- Ask for the pending notices. -/
  | takeNotices

/-- What a call reports. -/
inductive Report where
  | done
  /-- Whether it did what it was asked. -/
  | changed (yes : Bool)
  /-- How many strokes it removed. -/
  | removed (count : Nat)
  /-- The notices that were pending. -/
  | notices (list : List Notice)
  deriving DecidableEq

namespace Session

variable {α : Type} [Scalar α]

/-- One call of the host and its report. -/
def perform (s : Session α) : Action α → Session α × Report
  | .beginStroke p => (s.beginStroke p).map id .changed
  | .extendStroke p => (s.extendStroke p).map id .changed
  | .finishStroke => s.finishStroke.map id fun number => .changed number.isSome
  | .cancelStroke => s.cancelStroke.map id .changed
  | .eraseAt p => (s.eraseAt p).map id .removed
  | .undo => s.undo.map id .changed
  | .redo => s.redo.map id .changed
  | .clear => s.clear.map id .changed
  | .setTool tool => (s.setTool tool, .done)
  | .setColor color => (s.setColor color, .done)
  | .setWidth width => (s.setWidth width).map id .changed
  | .pan delta => (s.pan delta).map id .changed
  | .zoom factor anchor => (s.zoom factor anchor).map id .changed
  | .resetView => (s.resetView, .done)
  | .handle e => (s.handle e).map id .changed
  | .interrupt => s.interrupt.map id .changed
  | .takeNotices => s.takeNotices.map id .notices

/-- The session after a list of calls. -/
def run (s : Session α) (actions : List (Action α)) : Session α :=
  actions.foldl (fun s action => (s.perform action).1) s

end Session

end InkCanvas
