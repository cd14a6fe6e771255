import InkCanvas.Proofs.Json.Fields
import InkCanvas.Proofs.Json.Value
import InkCanvas.Stored.Input

/-! # Stored values are read back

Counts, names, colors and events are the same when they are read as they are stored, and so is a finite
double if its numeral reads back. All of them are legible, so they may stand behind a tag. An event is read
from any fields that have the same values under the same names. -/

namespace InkCanvas

namespace Json.Value

variable {x : Float} {n bound : Nat}

/-! ## Counts and doubles -/

theorem toFloat?_ofFloat (hfinite : x.isFinite = true) (h : Numeral.ReadsBack x) :
    (ofFloat x).toFloat? = some x := by
  rw [ofFloat, if_pos hfinite]
  exact h

theorem toNatBelow?_ofNat (h : n < bound) : (ofNat n).toNatBelow? bound = some n := by
  rw [ofNat, toNatBelow?, Numeral.toNat?_ofNat, Option.filter, if_pos (decide_eq_true h)]

theorem toUInt8?_ofNat (n : UInt8) : (ofNat n.toNat).toUInt8? = some n := by
  rw [toUInt8?, toNatBelow?_ofNat n.toNat_lt, Option.map_some]
  exact congrArg some n.ofNat_toNat

theorem toUInt64?_ofNat (n : UInt64) : (ofNat n.toNat).toUInt64? = some n := by
  rw [toUInt64?, toNatBelow?_ofNat n.toNat_lt, Option.map_some]
  exact congrArg some n.ofNat_toNat

/-! ## Legibility -/

theorem isLegible_ofFloat (hfinite : x.isFinite = true) (h : Numeral.ReadsBack x) (room : Nat) :
    (ofFloat x).isLegible room = true := by
  rw [ofFloat, if_pos hfinite, isLegible, Numeral.isLegible, h, Option.isSome_some, Bool.or_true]

theorem isLegible_ofNat (h : n < UInt64.size) (room : Nat) : (ofNat n).isLegible room = true := by
  rw [ofNat, isLegible, Numeral.isLegible, Numeral.toNat?_ofNat, Option.any_some, decide_eq_true h,
    Bool.true_or]

theorem isLegible_ofString (s : String) (room : Nat) : (ofString s).isLegible room = true := by
  rw [ofString, isLegible, Option.isSome_some]

end Json.Value

open Json

theorem Json.Fields.getOption?_ofFloat {f : Fields} {name : String} {x : Float}
    (h : f.lookup name = some (.ofFloat x)) (hfinite : x.isFinite = true)
    (hread : Numeral.ReadsBack x) : f.getOption? name Value.toFloat? = some (some x) := by
  rw [getOption?, h, Value.ofFloat, if_pos hfinite]
  exact congrArg (Option.map some) hread

/-! ## Names -/

theorem Tool.ofJson?_name (setting : Setting) (tool : Tool) :
    ofJson? setting (.ofString tool.name) = some tool := by
  cases tool <;> rfl

theorem Device.ofJson?_name (setting : Setting) (device : Device) :
    ofJson? setting (.ofString device.name) = some device := by
  cases device <;> rfl

theorem Phase.ofJson?_name (setting : Setting) (phase : Phase) :
    ofJson? setting (.ofString phase.name) = some phase := by
  cases phase <;> rfl

/-! ## Colors -/

namespace Color

variable (c : Color)

theorem ofJson?_toJson : ofJson? c.toJson = some c := by
  have hfields : Fields.ofValue? ["r", "g", "b", "a"] c.toJson
      = some [("r", .ofNat c.r.toNat), ("g", .ofNat c.g.toNat), ("b", .ofNat c.b.toNat),
        ("a", .ofNat c.a.toNat)] := rfl
  rw [ofJson?, hfields]
  simp [Fields.get?, List.lookup, Value.toUInt8?_ofNat]

theorem isLegible_toJson {room : Nat} (h : 0 < room) : c.toJson.isLegible room = true := by
  have hlt (n : UInt8) : n.toNat < UInt64.size := n.toNat_lt.trans (by decide)
  obtain ⟨room, rfl⟩ := Nat.exists_eq_add_one.mpr h
  simp [toJson, Value.ofFields, Value.isLegible, Value.areLegibleMembers, Value.isLegible_ofNat, hlt]

theorem writable_toJson : c.toJson.Writable := by
  apply Value.writable_ofFields
  simp [Value.writable_ofNat]

end Color

/-! ## Events -/

namespace Event

/-- The doubles in an event. -/
def floats (e : Event Float) : List Float := e.pos.x :: e.pos.y :: e.pressure.toList

variable {e : Event Float}

theorem nodup_toFields : (e.toFields.map Prod.fst).Nodup := by
  cases h : e.pressure <;> simp [toFields, pressureField, h]

theorem mem_fieldNames : ∀ m ∈ e.toFields, m.1 ∈ fieldNames := by
  cases h : e.pressure <;> simp [toFields, pressureField, fieldNames, h]

theorem ofFields?_congr {f g : Fields} (h : ∀ name, f.lookup name = g.lookup name)
    (setting : Setting) : ofFields? setting f = ofFields? setting g := by
  simp only [ofFields?, Fields.get?, Fields.getOption?, h]

theorem ofFields?_toFields (hfinite : ∀ x ∈ e.floats, x.isFinite = true)
    (hread : ∀ x ∈ e.floats, Numeral.ReadsBack x) (setting : Setting) :
    ofFields? setting e.toFields = some e := by
  have hfloat (x : Float) (hx : x ∈ e.floats) : (Value.ofFloat x).toFloat? = some x :=
    Value.toFloat?_ofFloat (hfinite x hx) (hread x hx)
  obtain ⟨contact, device, phase, ⟨x, y⟩, time, pressure⟩ := e
  have hx := hfloat x (by simp [floats])
  have hy := hfloat y (by simp [floats])
  have hpressure : Fields.getOption? (toFields ⟨contact, device, phase, ⟨x, y⟩, time, pressure⟩)
      "pressure" Value.toFloat? = some pressure := by
    cases pressure with
    | none => rfl
    | some p =>
      have hp : p ∈ floats ⟨contact, device, phase, ⟨x, y⟩, time, some p⟩ := by simp [floats]
      exact Fields.getOption?_ofFloat rfl (hfinite p hp) (hread p hp)
  rw [ofFields?, hpressure]
  simp [toFields, Fields.get?, List.lookup, Value.toUInt64?_ofNat, Device.ofJson?_name,
    Phase.ofJson?_name, hx, hy]

/-- A fact about everything stored of an event. -/
theorem forall_mem_toFields {P : Value → Prop} (hcount : ∀ n : UInt64, P (.ofNat n.toNat))
    (hname : ∀ s, P (.ofString s)) (hfloat : ∀ x ∈ e.floats, P (.ofFloat x)) :
    ∀ m ∈ e.toFields, P m.2 := by
  obtain ⟨contact, device, phase, ⟨x, y⟩, time, pressure⟩ := e
  cases pressure <;> simp_all [toFields, pressureField, floats]

theorem isLegible_toFields (hfinite : ∀ x ∈ e.floats, x.isFinite = true)
    (hread : ∀ x ∈ e.floats, Numeral.ReadsBack x) (room : Nat) :
    ∀ m ∈ e.toFields, m.2.isLegible room = true :=
  forall_mem_toFields (P := (·.isLegible room = true))
    (fun n => Value.isLegible_ofNat n.toNat_lt room)
    (fun s => Value.isLegible_ofString s room)
    fun x hx => Value.isLegible_ofFloat (hfinite x hx) (hread x hx) room

theorem writable_toFields : ∀ m ∈ e.toFields, m.2.Writable :=
  forall_mem_toFields (fun n => Value.writable_ofNat n.toNat) Value.writable_ofString
    fun x _ => Value.writable_ofFloat x

end Event

end InkCanvas
