import InkCanvas.Path.Trail
import InkCanvas.Viewport

/-! # Frames

A frame is all there is to paint: every stroke as a curve on the screen, back to front, and the
stroke that is being drawn on top. -/

namespace InkCanvas

/-- A stroke as it lies on the screen. -/
structure Mark (α : Type) where
  /-- The number of the stroke, once it has one. -/
  id : Option Nat
  /-- Its shape on the screen. -/
  path : InkPath α
  color : Color
  /-- The width of its line on the screen. -/
  width : α
  tool : Tool

/-- The stroke, whose shape on the canvas is `path`, seen through a viewport. -/
def Mark.resolve {α : Type} [Scalar α] (id : Option Nat) (path : InkPath α) (s : Stroke α)
    (view : Viewport α) : Mark α where
  id
  path := path.transformed view.transform view.scale
  color := s.style.color
  width := s.style.width * view.scale
  tool := s.tool

/-- All there is to paint. -/
structure Frame (α : Type) where
  /-- The committed strokes, back to front. -/
  strokes : List (Mark α)
  /-- The stroke that is being drawn. -/
  live : Option (Mark α)
  /-- The viewport it is seen through. -/
  view : Viewport α
  /-- The revision of the session it shows. -/
  revision : UInt64

namespace Frame

variable {α : Type}

/-- All marks, back to front. -/
def marks (f : Frame α) : List (Mark α) := f.strokes ++ f.live.toList

/-- There is nothing to paint. -/
def isEmpty (f : Frame α) : Bool := f.marks.isEmpty

/-- The frame of an untouched canvas. -/
def blank [Scalar α] : Frame α := ⟨[], none, .initial, 0⟩

end Frame

end InkCanvas
