import InkCanvas.Proofs.Viewport

/-! # Distances are defined

The distance of two points at finite places may be too large for a double, but it is never undefined: a
difference of finite values is defined, a square of a defined value is not negative, and neither are the
sum of two such values and its root. -/

namespace InkCanvas

/-- The distance of finite points equals itself, whether or not it is finite. -/
class LawfulDistance (α : Type) [Scalar α] : Prop extends LawfulScalar α where
  beq_distance_self {p q : Point α} : p.isFinite = true → q.isFinite = true →
    (p.distance q == p.distance q) = true

theorem Point.le_distance_of_not_lt {α : Type} [Scalar α] [LawfulDistance α] {p q : Point α} {δ : α}
    (hδ : Scalar.isFinite δ = true) (hp : p.isFinite = true) (hq : q.isFinite = true)
    (h : ¬p.distance q < δ) : δ ≤ p.distance q :=
  LawfulScalar.le_of_not_lt (LawfulDistance.beq_distance_self hp hq)
    (LawfulScalar.beq_self_of_isFinite hδ) h

/-! ## Doubles -/

namespace Double

open Float.Model Float.Model.UnpackedFloat

variable {spec : Format} {x y : UnpackedFloat}

/-- The sign of a value that is defined. -/
def sign? : UnpackedFloat → Option Sign
  | .notANumber => none
  | .infinity s | .zero s | .finite s .. => some s

theorem isNaN_of_sign? {s : Sign} (h : sign? x = some s) : x.isNaN = false := by
  cases x with
  | notANumber => cases h
  | infinity | zero | finite => rfl

/-! ### Packing -/

theorem unpackSign_packComponents (s : Sign) (e : BitVec spec.exponentBits)
    (m : BitVec spec.mantissaBitsWithoutImplicit) :
    Sign.ofBitVec (unpackSign (packComponents spec s e m)) = s := by
  have hsign : unpackSign (packComponents spec s e m) = s.toBitVec := by
    ext i hi
    obtain rfl : i = 0 := by omega
    simp [unpackSign, packComponents, BitVec.getLsbD_append, BitVec.getElem_append]
  rw [hsign]
  cases s <;> rfl

theorem sign?_unpack_packComponents (s : Sign) {e : BitVec spec.exponentBits}
    {m : BitVec spec.mantissaBitsWithoutImplicit} (h : e = -1#_ → m = 0#_) :
    sign? (UnpackedFloat.unpack spec (packComponents spec s e m)) = some s := by
  unfold UnpackedFloat.unpack
  simp only [unpackMantissa_packComponents, unpackExponent_packComponents, unpackSign_packComponents]
  split
  next he => rw [if_pos (h he)]; rfl
  next =>
    split
    next => split <;> rfl
    next => rfl

/-- A value that is defined is so after it is packed, and keeps its sign. -/
theorem sign?_unpack_pack {s : Sign} (h : sign? x = some s) :
    sign? (UnpackedFloat.unpack spec (UnpackedFloat.pack spec x)) = some s := by
  cases x with
  | notANumber => cases h
  | infinity =>
    cases h
    exact sign?_unpack_packComponents _ fun _ => rfl
  | zero =>
    cases h
    exact sign?_unpack_packComponents _ fun _ => rfl
  | finite s' m e hm =>
    cases h
    unfold UnpackedFloat.pack
    dsimp only
    generalize hbiased : (e + spec.exponentBias + spec.mantissaBitsWithoutImplicit).toNat = biased
    split
    next => exact sign?_unpack_packComponents _ fun _ => rfl
    next hsmall =>
      split
      next =>
        refine sign?_unpack_packComponents _ fun hones => ?_
        -- The exponent of all ones is that of an infinity, which is handled before.
        have hexponent := congrArg BitVec.toNat hones
        rw [BitVec.toNat_ofNat, Nat.mod_eq_of_lt (by omega), BitVec.neg_one_eq_allOnes,
          BitVec.toNat_allOnes] at hexponent
        omega
      next =>
        refine sign?_unpack_packComponents _ fun hones => ?_
        have hexponent := congrArg BitVec.toNat hones
        rw [BitVec.neg_one_eq_allOnes, BitVec.toNat_allOnes, BitVec.toNat_zero] at hexponent
        have hpos := Nat.one_lt_two_pow (Nat.pos_iff_ne_zero.mp spec.he)
        omega

/-! ### Rounding -/

theorem sign?_roundWithAccuracy (s : Sign) (m : Nat) (e : Int) (accuracy : Accuracy) :
    sign? (roundWithAccuracy spec s m e accuracy) = some s := by
  unfold roundWithAccuracy
  dsimp only
  split <;> rfl

theorem sign?_round (s : Sign) (m : Nat) (e : Int) : sign? (round spec s m e) = some s :=
  sign?_roundWithAccuracy s _ _ .exact

theorem exists_sign?_normalize (m e : Int) (zeroSign : Sign) :
    ∃ s, sign? (UnpackedFloat.normalize spec m e zeroSign) = some s := by
  unfold UnpackedFloat.normalize
  split
  next => exact ⟨_, sign?_round _ _ _⟩
  next => exact ⟨_, rfl⟩
  next => exact ⟨_, sign?_round _ _ _⟩

theorem sign?_normalize_of_nonneg {m : Int} (hm : 0 ≤ m) (e : Int) :
    sign? (UnpackedFloat.normalize spec m e .positive) = some .positive := by
  unfold UnpackedFloat.normalize
  split
  next hlt =>
    rw [Int.compare_eq_lt] at hlt
    omega
  next => rfl
  next => exact sign?_round _ _ _

/-! ### Operations -/

theorem exists_sign?_sub (hx : x.isFinite = true) (hy : y.isFinite = true) :
    ∃ s, sign? (UnpackedFloat.sub spec x y) = some s := by
  cases x with
  | notANumber | infinity => cases hx
  | zero s =>
    cases y with
    | notANumber | infinity => cases hy
    | zero s' => cases s <;> cases s' <;> exact ⟨_, rfl⟩
    | finite => exact ⟨_, rfl⟩
  | finite =>
    cases y with
    | notANumber | infinity => cases hy
    | zero => exact ⟨_, rfl⟩
    | finite => exact exists_sign?_normalize _ _ _

/-- A square is not negative. -/
theorem sign?_mul_self {s : Sign} (h : sign? x = some s) :
    sign? (UnpackedFloat.mul spec x x) = some .positive := by
  have hself (s : Sign) : s * s = .positive := by cases s <;> rfl
  cases x with
  | notANumber => cases h
  | infinity | zero => exact congrArg some (hself _)
  | finite => exact (sign?_roundWithAccuracy _ _ _ _).trans (congrArg some (hself _))

theorem sign?_add (hx : sign? x = some .positive) (hy : sign? y = some .positive) :
    sign? (UnpackedFloat.add spec x y) = some .positive := by
  cases x with
  | notANumber => cases hx
  | infinity =>
    cases hx
    cases y with
    | notANumber => cases hy
    | infinity => cases hy; rfl
    | zero | finite => rfl
  | zero =>
    cases hx
    cases y with
    | notANumber => cases hy
    | zero => cases hy; rfl
    | infinity | finite => exact hy
  | finite _ m e =>
    cases hx
    cases y with
    | notANumber => cases hy
    | infinity => exact hy
    | zero => rfl
    | finite _ m' e' =>
      cases hy
      refine sign?_normalize_of_nonneg ?_ _
      exact Int.add_nonneg (Int.natCast_nonneg _) (Int.natCast_nonneg _)

theorem sign?_sqrt (h : sign? x = some .positive) :
    sign? (UnpackedFloat.sqrt spec x) = some .positive := by
  cases x with
  | notANumber => cases h
  | infinity | zero => cases h; rfl
  | finite =>
    cases h
    exact sign?_roundWithAccuracy _ _ _ _

/-! ### Doubles -/

/-- The sign of a double that is defined. -/
def signOf? (a : Float) : Option Sign := sign? a.toModel.unpack

variable {a b : Float}

theorem exists_signOf?_sub (ha : a.isFinite = true) (hb : b.isFinite = true) :
    ∃ s, signOf? (a - b) = some s := by
  obtain ⟨s, h⟩ := exists_sign?_sub ha hb
  exact ⟨s, sign?_unpack_pack h⟩

theorem signOf?_mul_self {s : Sign} (h : signOf? a = some s) : signOf? (a * a) = some .positive :=
  sign?_unpack_pack (sign?_mul_self h)

theorem signOf?_add (ha : signOf? a = some .positive) (hb : signOf? b = some .positive) :
    signOf? (a + b) = some .positive :=
  sign?_unpack_pack (sign?_add ha hb)

theorem signOf?_sqrt (h : signOf? a = some .positive) : signOf? a.sqrt = some .positive :=
  sign?_unpack_pack (sign?_sqrt h)

theorem beq_self_of_signOf? {s : Sign} (h : signOf? a = some s) : (a == a) = true :=
  beq_self (isNaN_of_sign? h)

end Double

open Double

instance : LawfulDistance Float where
  beq_distance_self {p q} hp hq := by
    obtain ⟨hpx, hpy⟩ := Point.isFinite_iff.mp hp
    obtain ⟨hqx, hqy⟩ := Point.isFinite_iff.mp hq
    obtain ⟨sx, hx⟩ := exists_signOf?_sub hpx hqx
    obtain ⟨sy, hy⟩ := exists_signOf?_sub hpy hqy
    have hsq := signOf?_add (signOf?_mul_self hx) (signOf?_mul_self hy)
    exact beq_self_of_signOf? (signOf?_sqrt hsq)

end InkCanvas
