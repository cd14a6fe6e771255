import InkCanvas.Frame
import InkCanvas.Raster.Pixel
import InkCanvas.Raster.Shape

/-! # Painted frames

A picture is a frame that was given a size and a background. Each of its pixels is computed by
itself: the background, and over it the ink of every mark that covers the pixel, back to front.
Marks of the eraser are painted in the background color. -/

namespace InkCanvas

/-- Why nothing is painted. -/
inductive RenderError where
  /-- There are no strokes. -/
  | emptyCanvas
  /-- A side of the image is zero or too long. -/
  | invalidSize (width height : Nat)
  /-- The image cannot be written as a file. -/
  | encoding
  deriving DecidableEq

/-- What an error says. -/
def RenderError.message : RenderError → String
  | .emptyCanvas => "Nothing to render: the canvas has no strokes"
  | .invalidSize width height => "Invalid image size " ++ toString width ++ "x" ++ toString height
  | .encoding => "PNG encoding failed"

/-- The color a mark is painted in. -/
def Mark.ink (m : Mark Float) (background : Color) : Color :=
  match m.tool with
  | .pen => m.color
  | .eraser => background

/-- The pixel under a list of inks, back to front. -/
def layered (background : Color) (inks : List Color) : Pixel :=
  inks.foldl (fun under ink => (Pixel.ofColor ink).laidOver under) (Pixel.ofColor background)

/-- A painted frame. -/
structure Picture where
  width : Nat
  height : Nat
  background : Color
  /-- What each mark covers and its color, back to front. -/
  inks : List (Shape × Color)

/-- An image whose sides are an admissible number of pixels long. -/
def isPaintable (width height : Nat) : Bool :=
  decide (0 < width ∧ width ≤ maxSide ∧ 0 < height ∧ height ≤ maxSide)

namespace Picture

/-- The picture of a frame. -/
def ofFrame (f : Frame Float) (width height : Nat) (background : Color) :
    Except RenderError Picture :=
  if isPaintable width height then
    .ok ⟨width, height, background,
      f.marks.map fun m => (.ofPath m.path m.width, m.ink background)⟩
  else
    .error (.invalidSize width height)

/-- The center of a pixel. -/
def center (x y : Nat) : Point Float := ⟨x.toFloat + 0.5, y.toFloat + 0.5⟩

/-- The color where a list of inks lies on a background. -/
def shade (background : Color) (inks : List (Shape × Color)) (p : Point Float) : Pixel :=
  layered background ((inks.filter fun ink => ink.1.covers p).map Prod.snd)

/-- The pixel in column `x` of row `y`. -/
def pixel? (pic : Picture) (x y : Nat) : Option Pixel :=
  if x < pic.width ∧ y < pic.height then some (shade pic.background pic.inks (center x y))
  else none

/-- The pixels of a row. -/
def row (pic : Picture) (y : Nat) : List Pixel :=
  let inks := pic.inks.map fun (shape, ink) => (shape.atHeight (center 0 y).y, ink)
  (List.range pic.width).map fun x => shade pic.background inks (center x y)

end Picture

end InkCanvas
