import InkCanvas.Gesture.Event

/-! # The contacts that are down

`Contacts` follows every contact from its press to its release. A contact keeps the device that it
was pressed with, whatever later events say, and its last finite position. -/

namespace InkCanvas

/-- A contact that is down. -/
structure Contact (α : Type) where
  id : ContactId
  /-- What was pressed. -/
  device : Device
  start : Point α
  /-- Where it was last at a finite position. -/
  pos : Point α
  startedAt : UInt64
  /-- The latest time that an event of it gave. -/
  updatedAt : UInt64

/-- The contacts that are down. -/
structure Contacts (α : Type) where
  /-- The contacts in the order they were pressed. -/
  down : List (Contact α)

variable {α : Type}

namespace Contact

/-- The contact that an event presses. -/
def ofEvent (e : Event α) : Contact α := ⟨e.contact, e.device, e.pos, e.pos, e.time, e.time⟩

/-- The contact after one more event of it. -/
def follow [Scalar α] (c : Contact α) (e : Event α) : Contact α :=
  { c with pos := if e.pos.isFinite then e.pos else c.pos, updatedAt := max c.updatedAt e.time }

/-- An event changes neither the number of a contact nor its device. -/
theorem identity_follow [Scalar α] (c : Contact α) (e : Event α) :
    (c.follow e).id = c.id ∧ (c.follow e).device = c.device := ⟨rfl, rfl⟩

/-- How long the contact has been down, in milliseconds. -/
def duration (c : Contact α) : UInt64 :=
  if c.updatedAt ≤ c.startedAt then 0 else c.updatedAt - c.startedAt

end Contact

namespace Contacts

/-- No contact is down. -/
def none : Contacts α := ⟨[]⟩

/-- The number of contacts. -/
def size (t : Contacts α) : Nat := t.down.length

/-- The contact with a number. -/
def get? (t : Contacts α) (id : ContactId) : Option (Contact α) := t.down.find? (·.id == id)

/-- A contact that is found is down and has the number asked for. -/
theorem mem_of_get?_eq_some {t : Contacts α} {id : ContactId} {c : Contact α}
    (h : t.get? id = some c) : c ∈ t.down ∧ c.id = id :=
  ⟨List.mem_of_find?_eq_some h, by simpa using List.find?_some h⟩

/-- The contacts of one device, in the order they were pressed. -/
def ofDevice (t : Contacts α) (d : Device) : List (Contact α) := t.down.filter (·.device == d)

/-- The contact with this number is a finger. -/
def isFinger (t : Contacts α) (id : ContactId) : Bool :=
  (t.get? id).any (·.device == .touch)

variable [Scalar α]

/-- A contact comes down. Nothing happens if it is down already or its position is not finite. -/
def press (t : Contacts α) (e : Event α) : Option (Contact α × Contacts α) :=
  if e.pos.isFinite && (t.get? e.contact).isNone then
    some (.ofEvent e, ⟨t.down ++ [.ofEvent e]⟩)
  else
    .none

/-- A contact that is down reports an event. -/
def update (t : Contacts α) (e : Event α) : Option (Contact α × Contacts α) :=
  (t.get? e.contact).map fun c =>
    (c.follow e, ⟨t.down.map fun d => if d.id == e.contact then d.follow e else d⟩)

/-- A contact that is down reports its last event and is gone. -/
def release (t : Contacts α) (e : Event α) : Option (Contact α × Contacts α) :=
  (t.get? e.contact).map fun c => (c.follow e, ⟨t.down.filter (·.id != e.contact)⟩)

end Contacts

end InkCanvas
