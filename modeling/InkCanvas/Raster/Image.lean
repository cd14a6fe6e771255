import InkCanvas.Raster.Picture

/-! # Images -/

namespace InkCanvas

/-- An image with straight alpha, four bytes to a pixel, row by row. -/
structure Image where
  /-- How many pixels wide it is. -/
  width : Nat
  /-- How many pixels high it is. -/
  height : Nat
  /-- The bytes of the pixels. -/
  rgba : ByteArray
  deriving BEq

/-- The image with a color behind the others. -/
def Color.appendTo (bytes : ByteArray) (c : Color) : ByteArray :=
  (((bytes.push c.r).push c.g).push c.b).push c.a

namespace Image

/-- There are as many bytes as the size asks for, and at least one pixel. -/
def isComplete (i : Image) : Bool :=
  decide (0 < i.width ∧ 0 < i.height ∧ i.rgba.size = i.width * i.height * 4)

/-- The color in column `x` of row `y`, if the bytes reach so far. -/
def color? (i : Image) (x y : Nat) : Option Color := do
  guard (x < i.width ∧ y < i.height)
  let start := (y * i.width + x) * 4
  return ⟨← i.rgba[start]?, ← i.rgba[start + 1]?, ← i.rgba[start + 2]?, ← i.rgba[start + 3]?⟩

/-- The image of a picture. -/
def ofPicture (pic : Picture) : Image where
  width := pic.width
  height := pic.height
  rgba := (List.range pic.height).foldl (fun bytes y =>
    (pic.row y).foldl (fun bytes p => p.toColor.appendTo bytes) bytes) .empty

end Image

end InkCanvas
