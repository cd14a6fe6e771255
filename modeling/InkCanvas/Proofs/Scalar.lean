import Mathlib
import InkCanvas.Scalar

/-! # What the arithmetic of the engine keeps to

`LawfulScalar` lists the few laws that hold of rounded and of exact arithmetic alike: the order is
total among values that equal themselves, and an operation on a value that is not finite does not give
a finite one. From these a clamped value lies between its bounds, whatever is clamped
(`Scalar.clamp_within`). Doubles are lawful. -/

namespace InkCanvas

/-- The laws that rounded arithmetic keeps to. -/
class LawfulScalar (α : Type) [Scalar α] : Prop where
  beq_self_of_isFinite {a : α} : Scalar.isFinite a = true → (a == a) = true
  lt_irrefl (a : α) : ¬a < a
  le_of_not_lt {a b : α} : (a == a) = true → (b == b) = true → ¬a < b → b ≤ a
  lt_of_not_le {a b : α} : (a == a) = true → (b == b) = true → ¬a ≤ b → b < a
  isFinite_of_within {lo hi a : α} : Scalar.isFinite lo = true → Scalar.isFinite hi = true →
    lo ≤ a → a ≤ hi → Scalar.isFinite a = true
  isFinite_zero : Scalar.isFinite (0 : α) = true
  isFinite_of_add {a b : α} : Scalar.isFinite (a + b) = true →
    Scalar.isFinite a = true ∧ Scalar.isFinite b = true
  isFinite_of_sub {a b : α} : Scalar.isFinite (a - b) = true →
    Scalar.isFinite a = true ∧ Scalar.isFinite b = true
  isFinite_of_mul {a b : α} : Scalar.isFinite (a * b) = true →
    Scalar.isFinite a = true ∧ Scalar.isFinite b = true
  isFinite_of_div {a b : α} : Scalar.isFinite (a / b) = true → Scalar.isFinite a = true

/-- The laws of the unit interval, which pressures are brought into. -/
class LawfulUnit (α : Type) [Scalar α] : Prop extends LawfulScalar α where
  isFinite_one : Scalar.isFinite (1 : α) = true
  zero_le_one : (0 : α) ≤ 1

namespace Scalar

variable {α : Type} [Scalar α] [LawfulScalar α] {lo hi : α}

open LawfulScalar

theorem le_refl_of_isFinite {a : α} (h : isFinite a = true) : a ≤ a :=
  le_of_not_lt (beq_self_of_isFinite h) (beq_self_of_isFinite h) (lt_irrefl a)

/-- The smaller of any value and a finite one is no undefined value and no larger than that one. -/
theorem min_le_of_isFinite (hhi : isFinite hi = true) (a : α) :
    (Scalar.min a hi == Scalar.min a hi) = true ∧ Scalar.min a hi ≤ hi := by
  have hself := beq_self_of_isFinite hhi
  unfold Scalar.min
  split
  · exact ⟨hself, le_refl_of_isFinite hhi⟩
  next hdefined =>
    have ha : (a == a) = true := by simpa using hdefined
    split
    · exact ⟨hself, le_refl_of_isFinite hhi⟩
    next hle => exact ⟨ha, le_of_not_lt hself ha hle⟩

/-- Whatever is clamped, the result lies between the bounds. -/
theorem clamp_within (hlo : isFinite lo = true) (hhi : isFinite hi = true) (h : lo ≤ hi) (a : α) :
    lo ≤ clamp a lo hi ∧ clamp a lo hi ≤ hi := by
  obtain ⟨hself, hle⟩ := min_le_of_isFinite hhi a
  unfold clamp Scalar.max
  split
  next hundefined =>
    rw [hself] at hundefined
    cases hundefined
  · split
    · exact ⟨le_refl_of_isFinite hlo, h⟩
    next hge => exact ⟨le_of_not_lt hself (beq_self_of_isFinite hlo) hge, hle⟩

end Scalar

/-! ## Doubles -/

namespace Double

open Float.Model Float.Model.UnpackedFloat

variable {x y : UnpackedFloat}

theorem compare_swap (x y : UnpackedFloat) : y.compare x = (x.compare y).map Ordering.swap := by
  cases x with
  | notANumber => cases y <;> rfl
  | infinity s => cases s <;> rcases y with (_ | _) | _ | _ | ⟨_ | _, _, _, _⟩ <;> rfl
  | zero s => rcases y with (_ | _) | _ | _ | ⟨_ | _, _, _, _⟩ <;> rfl
  | finite s m e hm =>
    rcases y with (_ | _) | _ | _ | ⟨_ | _, m', e', hm'⟩ <;> cases s <;>
      simp [UnpackedFloat.compare, Ordering.swap_then, Int.compare_swap, Nat.compare_swap]

theorem compare_self (h : x.isNaN = false) : x.compare x = some .eq := by
  cases x with
  | notANumber => cases h
  | infinity s => cases s <;> rfl
  | zero s => rfl
  | finite s m e hm => cases s <;> simp [UnpackedFloat.compare]

theorem compare_eq_none_iff : x.compare y = none ↔ x.isNaN = true ∨ y.isNaN = true := by
  rcases x with (_ | _) | _ | _ | ⟨_ | _, _, _, _⟩ <;>
    rcases y with (_ | _) | _ | _ | ⟨_ | _, _, _, _⟩ <;>
    simp [UnpackedFloat.compare, UnpackedFloat.isNaN]

theorem isNaN_of_isFinite (h : x.isFinite = true) : x.isNaN = false := by
  cases x with
  | notANumber | infinity => cases h
  | zero | finite => rfl

/-- Two numbers that are defined are in order one way or the other. -/
theorem le_of_lt_eq_false (hx : x.isNaN = false) (hy : y.isNaN = false) (h : x.lt y = false) :
    y.le x = true := by
  cases hcompare : x.compare y with
  | none =>
    rcases compare_eq_none_iff.mp hcompare with hnan | hnan
    · rw [hx] at hnan; cases hnan
    · rw [hy] at hnan; cases hnan
  | some o =>
    rw [UnpackedFloat.lt, hcompare] at h
    rw [UnpackedFloat.le, compare_swap, hcompare]
    cases o with
    | lt => cases h
    | eq | gt => rfl

theorem lt_of_le_eq_false (hx : x.isNaN = false) (hy : y.isNaN = false) (h : x.le y = false) :
    y.lt x = true := by
  cases hcompare : x.compare y with
  | none =>
    rcases compare_eq_none_iff.mp hcompare with hnan | hnan
    · rw [hx] at hnan; cases hnan
    · rw [hy] at hnan; cases hnan
  | some o =>
    rw [UnpackedFloat.le, hcompare] at h
    rw [UnpackedFloat.lt, compare_swap, hcompare]
    cases o with
    | gt => rfl
    | lt | eq => cases h

/-- Neither infinity lies between two finite numbers. -/
theorem isFinite_of_le {lo hi : UnpackedFloat} (hlo : lo.isFinite = true) (hhi : hi.isFinite = true)
    (hge : lo.le x = true) (hle : x.le hi = true) : x.isFinite = true := by
  cases x with
  | zero | finite => rfl
  | notANumber => cases lo <;> cases hge
  | infinity s =>
    cases s with
    | positive =>
      cases hi with
      | notANumber | infinity => cases hhi
      | zero | finite => cases hle
    | negative =>
      cases lo with
      | notANumber | infinity => cases hlo
      | zero | finite => cases hge

variable {spec : Format}

theorem isFinite_of_add (h : (UnpackedFloat.add spec x y).isFinite = true) :
    x.isFinite = true ∧ y.isFinite = true := by
  cases x with
  | notANumber => cases h
  | infinity s =>
    cases y with
    | infinity s' => cases s <;> cases s' <;> cases h
    | notANumber | zero | finite => cases h
  | zero | finite =>
    cases y with
    | notANumber | infinity => cases h
    | zero | finite => exact ⟨rfl, rfl⟩

theorem isFinite_of_sub (h : (UnpackedFloat.sub spec x y).isFinite = true) :
    x.isFinite = true ∧ y.isFinite = true := by
  cases x with
  | notANumber => cases h
  | infinity s =>
    cases y with
    | infinity s' => cases s <;> cases s' <;> cases h
    | notANumber | zero | finite => cases h
  | zero | finite =>
    cases y with
    | notANumber | infinity => cases h
    | zero | finite => exact ⟨rfl, rfl⟩

theorem isFinite_of_mul (h : (UnpackedFloat.mul spec x y).isFinite = true) :
    x.isFinite = true ∧ y.isFinite = true := by
  cases x with
  | notANumber => cases h
  | infinity s => cases y <;> cases h
  | zero | finite =>
    cases y with
    | notANumber | infinity => cases h
    | zero | finite => exact ⟨rfl, rfl⟩

theorem isFinite_of_div (h : (UnpackedFloat.div spec x y).isFinite = true) :
    x.isFinite = true := by
  cases x with
  | notANumber => cases h
  | infinity s => cases y <;> cases h
  | zero | finite => rfl

/-- What is not finite is packed as such. -/
theorem isFinite_of_isFinite_pack (h : (Float.Model.pack x).unpack.isFinite = true) :
    x.isFinite = true := by
  cases x with
  | zero | finite => rfl
  | notANumber => exact absurd h (by decide)
  | infinity s => cases s <;> exact absurd h (by decide)

theorem lt_iff {a b : Float} : a < b ↔ a.toModel.unpack.lt b.toModel.unpack = true :=
  decide_eq_true_iff

theorem le_iff {a b : Float} : a ≤ b ↔ a.toModel.unpack.le b.toModel.unpack = true :=
  decide_eq_true_iff

theorem isNaN_of_beq_self (h : x.beq x = true) : x.isNaN = false := by
  cases x with
  | notANumber => cases h
  | infinity | zero | finite => rfl

theorem beq_self (h : x.isNaN = false) : x.beq x = true := by
  rw [UnpackedFloat.beq, compare_self h]
  rfl

theorem lt_self_eq_false (x : UnpackedFloat) : x.lt x = false := by
  cases h : x.isNaN with
  | false => rw [UnpackedFloat.lt, compare_self h]; rfl
  | true => rw [UnpackedFloat.lt, compare_eq_none_iff.mpr (.inl h)]; rfl

end Double

open Double

instance : LawfulScalar Float where
  beq_self_of_isFinite h := beq_self (isNaN_of_isFinite h)
  lt_irrefl a h := by
    rw [lt_iff, lt_self_eq_false] at h
    cases h
  le_of_not_lt ha hb h := by
    rw [lt_iff, Bool.not_eq_true] at h
    exact le_iff.mpr (le_of_lt_eq_false (isNaN_of_beq_self ha) (isNaN_of_beq_self hb) h)
  lt_of_not_le ha hb h := by
    rw [le_iff, Bool.not_eq_true] at h
    exact lt_iff.mpr (lt_of_le_eq_false (isNaN_of_beq_self ha) (isNaN_of_beq_self hb) h)
  isFinite_of_within hlo hhi hge hle := isFinite_of_le hlo hhi (le_iff.mp hge) (le_iff.mp hle)
  isFinite_zero := by decide
  isFinite_of_add h := isFinite_of_add (isFinite_of_isFinite_pack h)
  isFinite_of_sub h := isFinite_of_sub (isFinite_of_isFinite_pack h)
  isFinite_of_mul h := isFinite_of_mul (isFinite_of_isFinite_pack h)
  isFinite_of_div h := isFinite_of_div (isFinite_of_isFinite_pack h)

instance : LawfulUnit Float where
  isFinite_one := by decide
  zero_le_one := le_iff.mpr (by decide)

end InkCanvas
