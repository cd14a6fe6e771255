import InkCanvas.Geometry.Rect

/-! # Shapes that can be counted in pixels

Where a shape is on the page is counted in whole pixels, with 32-bit integers. Its first column is
counted, and by itself the number of columns, both only up to `countLimit`, so a shape too large for
that ends before it reaches the page. Rows are counted likewise and then in quarters, which wrap
around. A shape is painted only if it is on the page by these counts: `isInReach`. -/

namespace InkCanvas

/-- The longest side of an image. -/
def maxSide : Nat := 8192

/-- A scalar rounded to single precision. -/
def single (x : Float) : Float := x.toFloat32.toFloat

/-- The largest count: the last number of single precision before `2³¹`. -/
def countLimit : Float := 2147483520

/-- The largest coordinate that is computed with: a quarter of the largest number of single
precision. -/
def coordinateLimit : Float := 8.5070586659632215e37

/-- A whole number as it is counted. -/
def counted (x : Float) : Int := (Scalar.clamp x (-countLimit) countLimit).toInt64.toInt

/-- Columns or rows of pixels, from `start` on and before `stop`. -/
structure PixelRange where
  /-- The first of them. -/
  start : Int
  /-- The first behind them. -/
  stop : Int
  deriving DecidableEq

namespace PixelRange

/-- The columns or rows that an extent touches, as they are counted. -/
def ofExtent (lo hi : Float) : PixelRange :=
  let start := counted lo.floor
  ⟨start, start + max 1 (counted (single (hi.ceil - lo.floor)).ceil)⟩

/-- The quarters of the columns or rows, as 32-bit integers. -/
def quarters (r : PixelRange) : PixelRange :=
  ⟨(4 * r.start).bmod 4294967296, (4 * r.stop).bmod 4294967296⟩

/-- Some of them are on a page whose side is `side`, and their end is a 32-bit integer. -/
def meets (r : PixelRange) (side : Int) : Bool :=
  decide (r.start < side ∧ 0 < r.stop ∧ r.stop < 2147483648)

end PixelRange

/-- What lies in the rectangle is on some page, by the counts of its pixels. -/
def isInReach (box : Rect Float) : Bool :=
  let rows := PixelRange.ofExtent box.y0 box.y1
  box.x0 ≥ -coordinateLimit && box.y0 ≥ -coordinateLimit &&
    box.x1 ≤ coordinateLimit && box.y1 ≤ coordinateLimit &&
    (PixelRange.ofExtent box.x0 box.x1).meets maxSide && rows.meets maxSide &&
    rows.quarters.meets (4 * maxSide)

end InkCanvas
