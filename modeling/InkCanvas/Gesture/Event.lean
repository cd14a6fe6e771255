import InkCanvas.Geometry.Point

/-! # Input events

An event tells what one contact, a pen tip or a finger, does on the screen. -/

namespace InkCanvas

/-- The number a device gives to a contact while it is down. -/
abbrev ContactId := UInt64

/-- What touches the screen. -/
inductive Device where
  | stylus
  | touch
  deriving DecidableEq

/-- What a contact does. -/
inductive Phase where
  | start
  | move
  | lift
  /-- The system takes it away. -/
  | cancel
  deriving DecidableEq

/-- The contact is gone afterwards. -/
def Phase.isRelease : Phase → Bool
  | .lift | .cancel => true
  | .start | .move => false

/-- What one contact does at one moment. -/
structure Event (α : Type) where
  contact : ContactId
  device : Device
  phase : Phase
  /-- Where it is on the screen. -/
  pos : Point α
  /-- When, in milliseconds. -/
  time : UInt64
  /-- How hard it presses, if the device tells. -/
  pressure : Option α

end InkCanvas
