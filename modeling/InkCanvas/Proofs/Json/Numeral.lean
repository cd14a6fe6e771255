import Mathlib
import InkCanvas.Json.Numeral

/-! # Numerals survive being written

Every numeral that has a form of JSON is read back from its text as it was (`Numeral.ofChars?_chars`). The
numerals of counts and doubles have such a form: a count has no zero in front because its first digit is
not zero, and so has a double because the shortest decimal of a positive one starts with a digit that is
not zero (`Numeral.wellFormed_ofFloat`). A count is the same number when it is read
(`Numeral.toNat?_ofNat`). -/

namespace InkCanvas

/-! ## Digits -/

namespace Digit

theorem ofChar?_toChar (d : Digit) : ofChar? d.toChar = some d := by
  decide +revert

theorem ofNat_ne_nil (n : Nat) : ofNat n ≠ [] := by
  rw [ofNat]
  split <;> simp

theorem toNat_append_singleton (ds : List Digit) (d : Digit) :
    toNat (ds ++ [d]) = toNat ds * 10 + d.val := by
  rw [toNat, List.foldl_append]
  rfl

theorem toNat_ofNat (n : Nat) : toNat (ofNat n) = n := by
  fun_induction ofNat n with
  | case1 n h =>
    change 0 * 10 + n % 10 = n
    omega
  | case2 n h ih =>
    rw [toNat_append_singleton, ih, Fin.val_ofNat]
    omega

/-- A number above zero has no zero in front. -/
theorem exists_ofNat_eq_cons {n : Nat} (h : 0 < n) : ∃ d ds, ofNat n = d :: ds ∧ d ≠ .zero := by
  fun_induction ofNat n with
  | case1 n hlt =>
    refine ⟨Fin.ofNat 10 n, [], rfl, fun hzero => ?_⟩
    have hval := congrArg Fin.val hzero
    rw [Fin.val_ofNat, Nat.mod_eq_of_lt hlt] at hval
    exact h.ne' hval
  | case2 n hlt ih =>
    obtain ⟨d, ds, hds, hd⟩ := ih (by omega)
    exact ⟨d, ds ++ [Fin.ofNat 10 n], by rw [hds, List.cons_append], hd⟩

end Digit

/-! ## Decimals -/

namespace Decimal

/-- Zeros at the end are no loss to a number that starts with another digit. -/
theorem exists_digits_ofScaled {n : Nat} (h : 0 < n) (e : Int) :
    ∃ d ds, (ofScaled n e).digits = d :: ds ∧ d ≠ .zero := by
  obtain ⟨d, ds, hds, hd⟩ := Digit.exists_ofNat_eq_cons h
  have hkept : [d].dropWhile (· == Digit.zero) = [d] := by simp [hd]
  refine ⟨d, (ds.reverse.dropWhile (· == .zero)).reverse, ?_, hd⟩
  rw [ofScaled, hds, List.reverse_cons, List.dropWhile_append, hkept]
  split
  next hempty => rw [List.isEmpty_iff.mp hempty]; rfl
  next => rw [List.reverse_append]; rfl

/-- The grid point next to a positive double that rounds to it is not zero. -/
theorem pos_of_onGrid? {tie : Tie} {b : Binary} {k : Int} {n : Nat} (hb : 0 < b.mantissa)
    (h : onGrid? tie b k = some n) : 0 < n := by
  unfold onGrid? at h
  extract_lets scale unit value lower upper closed count below above belowFits aboveFits at h
  have hscale : 0 < scale := Nat.mul_pos (Nat.pow_pos (by decide)) (Nat.pow_pos (by decide))
  have hlower : 0 < lower := Nat.mul_pos (by split <;> omega) hscale
  split at h
  next hfits =>
    have hbelow : 0 < below := by
      rcases hfits with hlt | ⟨-, heq⟩
      · exact hlower.trans hlt
      · rwa [← heq]
    have hcount : 0 < count := Nat.pos_of_mul_pos_right hbelow
    split at h
    · rw [← Option.some.inj h]
      exact Nat.succ_pos count
    · rwa [← Option.some.inj h]
  next =>
    split at h
    · rw [← Option.some.inj h]
      exact Nat.succ_pos count
    · cases h

theorem shortest_cases {tie : Tie} {b : Binary} (hb : 0 < b.mantissa) :
    shortest tie b = ⟨[.zero], 0⟩ ∨ ∃ d ds, (shortest tie b).digits = d :: ds ∧ d ≠ .zero := by
  unfold shortest
  extract_lets top
  cases hfound : (List.range 17).findSome? fun (n : Nat) =>
      (onGrid? tie b (top - n)).map fun count => ofScaled count (top - n) with
  | none => exact .inl rfl
  | some d =>
    obtain ⟨n, -, hgrid⟩ := List.exists_of_findSome?_eq_some hfound
    obtain ⟨count, hcount, rfl⟩ := Option.map_eq_some_iff.mp hgrid
    exact .inr (exists_digits_ofScaled (pos_of_onGrid? hb hcount) _)

end Decimal

/-- A double that is not zero has a mantissa. -/
theorem Binary.mantissa_ofFloat_pos {x : Float} (h : (x == 0) = false) :
    0 < (Binary.ofFloat x).mantissa := by
  unfold ofFloat
  extract_lets bits fraction exponent
  split
  next hexponent =>
    refine Nat.pos_of_ne_zero fun (hfraction : fraction = 0) => ?_
    -- Only the sign bit is left.
    have hlt : bits < 2 ^ 64 := x.toBits.toNat_lt
    have hbits : bits = 0 ∨ bits = 2 ^ 63 := by
      simp only [exponent, fraction, Nat.pow_eq] at hexponent hfraction
      omega
    have hx : x.toBits = 0 ∨ x.toBits = 0x8000000000000000 := by
      rcases hbits with hbits | hbits
      · exact .inl (UInt64.toNat_inj.mp hbits)
      · exact .inr (UInt64.toNat_inj.mp hbits)
    rcases hx with hx | hx
    · rw [← x.ofBits_toBits, hx] at h
      revert h
      decide
    · rw [← x.ofBits_toBits, hx] at h
      revert h
      decide
  next => exact Nat.add_pos_left (Nat.pow_pos (by decide)) _

namespace Json.Numeral

/-- A numeral has a form of JSON: a single zero or no zero in front, and an exponent that is not
empty. -/
structure WellFormed (n : Numeral) : Prop where
  whole : isWhole n.whole = true
  exponent : ∀ {negative ds}, n.exponent = some (negative, ds) → ds ≠ []

/-! ## Texts -/

/-- No digit follows. -/
def EndsDigits (cs : List Char) : Prop := ∀ c ∈ cs.head?, Digit.ofChar? c = none

theorem spanDigits_text (ds : List Digit) {cs : List Char} (h : EndsDigits cs) :
    spanDigits (ds.map Digit.toChar ++ cs) = (ds, cs) := by
  induction ds with
  | nil =>
    cases cs with
    | nil => rfl
    | cons c cs => rw [List.map_nil, List.nil_append, spanDigits, h c rfl]
  | cons d ds ih => rw [List.map_cons, List.cons_append, spanDigits, Digit.ofChar?_toChar, ih]; rfl

/-- The characters of an exponent with its mark. -/
def exponentChars : Option (Bool × List Digit) → List Char
  | none => []
  | some (negative, ds) => 'e' :: (if negative then '-' else '+') :: ds.map Digit.toChar

theorem exponentOf?_exponentChars {exponent : Option (Bool × List Digit)}
    (h : ∀ {negative ds}, exponent = some (negative, ds) → ds ≠ []) :
    exponentOf? (exponentChars exponent) = some exponent := by
  cases exponent with
  | none => rfl
  | some e =>
    obtain ⟨negative, ds⟩ := e
    have hspan : spanDigits (ds.map Digit.toChar) = (ds, []) := by
      rw [← List.append_nil (ds.map _)]
      exact spanDigits_text ds nofun
    obtain ⟨d, ds, rfl⟩ := List.exists_cons_of_ne_nil (h rfl)
    rw [List.map_cons] at hspan
    cases negative <;> simp [exponentChars, exponentOf?, hspan]

theorem endsDigits_exponentChars (exponent : Option (Bool × List Digit)) :
    EndsDigits (exponentChars exponent) := by
  cases exponent with
  | none => exact nofun
  | some e =>
    rintro c ⟨⟩
    decide

/-- The characters of a numeral. -/
def chars (n : Numeral) : List Char :=
  (if n.negative then ['-'] else []) ++ (n.whole.map Digit.toChar
    ++ ((if n.fraction.isEmpty then [] else '.' :: n.fraction.map Digit.toChar)
      ++ exponentChars n.exponent))

theorem toList_text (n : Numeral) : n.text.toList = n.chars := by
  obtain ⟨negative, whole, fraction, exponent⟩ := n
  unfold text chars Digit.text
  rcases exponent with - | ⟨_ | _, ds⟩ <;> cases negative <;> cases fraction <;>
    simp [exponentChars]

theorem toChar_ne_minus (d : Digit) : d.toChar ≠ '-' := by
  decide +revert

/-- A numeral that has a form of JSON is read back as it was written. -/
theorem ofChars?_chars {n : Numeral} (h : n.WellFormed) : ofChars? n.chars = some n := by
  obtain ⟨negative, whole, fraction, exponent⟩ := n
  have hwhole : isWhole whole = true := h.whole
  have hread : exponentOf? (exponentChars exponent) = some exponent :=
    exponentOf?_exponentChars h.exponent
  obtain ⟨d, ds, rfl⟩ : ∃ d ds, whole = d :: ds := by
    cases whole with
    | nil => cases hwhole
    | cons d ds => exact ⟨d, ds, rfl⟩
  have hsign := toChar_ne_minus d
  unfold ofChars? chars
  cases fraction with
  | nil =>
    have hspan := spanDigits_text (d :: ds) (endsDigits_exponentChars exponent)
    rcases exponent with - | e <;>
      simp only [exponentChars, List.map_cons, List.cons_append, List.append_nil] at hspan hread <;>
      cases negative <;> simp [exponentChars, hsign, hspan, hwhole, hread]
  | cons f fs =>
    have hfraction := spanDigits_text (f :: fs) (endsDigits_exponentChars exponent)
    have hpoint : EndsDigits ('.' :: ((f :: fs).map Digit.toChar ++ exponentChars exponent)) := by
      rintro c ⟨⟩
      decide
    have hspan := spanDigits_text (d :: ds) hpoint
    simp only [List.map_cons, List.cons_append] at hspan hfraction
    cases negative <;> simp [hsign, hspan, hwhole, hfraction, hread]

/-! ## Counts -/

theorem isWhole_cons {d : Digit} (h : d ≠ .zero) (ds : List Digit) : isWhole (d :: ds) = true := by
  cases ds with
  | nil => rfl
  | cons => exact bne_iff_ne.mpr h

theorem isWhole_ofNat (n : Nat) : isWhole (Digit.ofNat n) = true := by
  rcases Nat.eq_zero_or_pos n with rfl | hn
  · rw [Digit.ofNat]
    rfl
  · obtain ⟨d, ds, hds, hd⟩ := Digit.exists_ofNat_eq_cons hn
    rw [hds]
    exact isWhole_cons hd ds

theorem wellFormed_ofNat (n : Nat) : (ofNat n).WellFormed := ⟨isWhole_ofNat n, nofun⟩

theorem toNat?_ofNat (n : Nat) : (ofNat n).toNat? = some n := by
  rw [toNat?, ofNat]
  exact congrArg some (Digit.toNat_ofNat n)

/-! ## Doubles -/

theorem wellFormed_ofFloat (x : Float) : (ofFloat x).WellFormed := by
  unfold ofFloat
  split
  next => exact ⟨rfl, nofun⟩
  next hzero =>
    extract_lets d
    have hd : d = ⟨[.zero], 0⟩ ∨ ∃ e es, d.digits = e :: es ∧ e ≠ .zero :=
      Decimal.shortest_cases (Binary.mantissa_ofFloat_pos (Bool.not_eq_true _ ▸ hzero))
    clear_value d
    split
    next hplain =>
      refine ⟨?_, nofun⟩
      change isWhole d.split.1 = true
      unfold Decimal.split
      split
      next => rfl
      next hpoint =>
        rcases hd with rfl | ⟨e, es, hdigits, he⟩
        · exact absurd (le_refl _) hpoint
        · obtain ⟨k, hk⟩ : ∃ k, d.point.toNat = k + 1 := ⟨d.point.toNat - 1, by omega⟩
          rw [hdigits, hk, List.take_succ_cons, List.cons_append]
          exact isWhole_cons he _
    next hexponent =>
      rcases hd with rfl | ⟨e, es, hdigits, he⟩
      · exact absurd ⟨by decide, by decide⟩ hexponent
      · refine ⟨?_, fun h => ?_⟩
        · rw [hdigits]
          rfl
        · obtain ⟨-, rfl⟩ := Prod.mk.inj (Option.some.inj h)
          exact Digit.ofNat_ne_nil _

/-- A double is the same number when it is read as it is written. -/
def ReadsBack (x : Float) : Prop := (ofFloat x).toFloat? = some x

instance (x : Float) : Decidable (ReadsBack x) :=
  inferInstanceAs (Decidable ((ofFloat x).toFloat? = some x))

end Json.Numeral

end InkCanvas
