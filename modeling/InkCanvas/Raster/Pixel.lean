import InkCanvas.Color

/-! # Pixels

A pixel is a color whose channels are already multiplied by its opacity, eight bits each. Ink is
laid over a pixel with whole numbers, so a page painted twice has the same bits. -/

namespace InkCanvas

/-- A color multiplied by its opacity. -/
structure Pixel where
  r : UInt8
  g : UInt8
  b : UInt8
  a : UInt8
  deriving DecidableEq

namespace Pixel

/-- A channel on the scale from zero to one. -/
def fraction (c : UInt8) : Float32 := c.toFloat32 / 255

/-- The pixel of a color. -/
def ofColor (c : Color) : Pixel :=
  let weight (x : UInt8) : Float32 := if c.a = 255 then fraction x else fraction x * fraction c.a
  let round (x : Float32) : UInt8 := (x * 255 + 0.5).toUInt8
  ⟨round (weight c.r), round (weight c.g), round (weight c.b), round (fraction c.a)⟩

/-- One channel of ink with opacity `alpha`, laid over a channel. -/
def overChannel (alpha ink under : UInt8) : UInt8 :=
  ink + ((under.toNat * (255 - alpha.toNat) + 255) / 256).toUInt8

/-- Ink laid over a pixel. -/
def laidOver (ink under : Pixel) : Pixel :=
  ⟨overChannel ink.a ink.r under.r, overChannel ink.a ink.g under.g,
    overChannel ink.a ink.b under.b, overChannel ink.a ink.a under.a⟩

/-- The color of a pixel; of one that is fully transparent, black. -/
def toColor (p : Pixel) : Color :=
  if p.a = 255 then ⟨p.r, p.g, p.b, p.a⟩
  else
    let opacity := p.a.toFloat / 255
    let straight (x : UInt8) : UInt8 := (x.toFloat / opacity + 0.5).toUInt8
    ⟨straight p.r, straight p.g, straight p.b, p.a⟩

end Pixel

end InkCanvas
