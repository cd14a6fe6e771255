/-! # Ink colors -/

namespace InkCanvas

/-- A color with straight alpha, eight bits to a channel. -/
structure Color where
  r : UInt8
  g : UInt8
  b : UInt8
  a : UInt8
  deriving DecidableEq

namespace Color

/-- Opaque black, the color of fresh ink. -/
def black : Color := ⟨0, 0, 0, 255⟩

/-- Opaque white, the color of an empty page. -/
def white : Color := ⟨255, 255, 255, 255⟩

/-- One step of an eight-bit channel on the scale from zero to one. -/
def unit : Float32 := 1 / 255

/-- The channels on the scale from zero to one, in the order red, green, blue, alpha. -/
def components (c : Color) : List Float32 :=
  [c.r, c.g, c.b, c.a].map fun channel => channel.toFloat32 * unit

/-- The nearest eight-bit channel to a component; components outside the scale go to its ends,
and one that is no number to zero. -/
def channel (x : Float32) : UInt8 := (x * 255 + 0.5).toUInt8

/-- The color nearest to four components. -/
def ofComponents (r g b a : Float32) : Color := ⟨channel r, channel g, channel b, channel a⟩

end Color

end InkCanvas
