import InkCanvas.Decimal

/-! # Numerals of JSON

A numeral is kept as it is spelled, digit by digit, because what it means depends on the field it
stands in: a count takes only digits, a measure any numeral.

* `Numeral.ofNat`, `Numeral.toNat?`: counts.
* `Numeral.ofFloat`, `Numeral.toFloat?`: measures. -/

namespace InkCanvas.Json

/-- A number as JSON spells it. -/
structure Numeral where
  /-- There is a minus sign. -/
  negative : Bool
  /-- The digits before the decimal point. -/
  whole : List Digit
  /-- The digits behind the decimal point; none if there is no point. -/
  fraction : List Digit
  /-- The exponent, if there is one: whether it has a minus sign, and its digits. -/
  exponent : Option (Bool × List Digit)
  deriving DecidableEq

namespace Numeral

/-- The spelling of a count. -/
def ofNat (n : Nat) : Numeral := ⟨false, Digit.ofNat n, [], none⟩

/-- The count that a numeral spells, if it has nothing but digits. -/
def toNat? (n : Numeral) : Option Nat :=
  if !n.negative && n.fraction.isEmpty && n.exponent.isNone then some (Digit.toNat n.whole)
  else none

/-- The spelling of a finite double: its shortest digits, of two equally near ones those with an
even end. From `10⁻⁵` up to `10¹⁶` there is a decimal point and at least one digit behind it;
beyond, there is one digit before the point and an exponent. -/
def ofFloat (x : Float) : Numeral :=
  if x == 0 then ⟨signBit x, [.zero], [.zero], none⟩
  else
    let d := Decimal.shortest .even (.ofFloat x)
    if -5 < d.point ∧ d.point ≤ 16 then
      let (whole, fraction) := d.split
      ⟨signBit x, whole, if fraction.isEmpty then [.zero] else fraction, none⟩
    else
      ⟨signBit x, d.digits.take 1, d.digits.drop 1,
        some (decide (d.point ≤ 0), Digit.ofNat (d.point - 1).natAbs)⟩

/-- Digits taken up while the number they spell fits 64 bits, and the digits that are left. -/
def absorb (n : Nat) : List Digit → Nat × List Digit
  | [] => (n, [])
  | d :: ds => if n * 10 + d.val < UInt64.size then absorb (n * 10 + d.val) ds else (n, d :: ds)

/-- The power of ten that a double can hold, rounded. -/
def powerOfTen (n : Nat) : Float := Float.ofScientific 1 false n

/-- The double `x · 10 ^ e`, in steps that each round, unless it is too large. -/
def scaled? (x : Float) (e : Int) : Option Float :=
  if e.natAbs ≤ 308 then
    if 0 ≤ e then
      let y := x * powerOfTen e.natAbs
      if y.isInf then none else some y
    else
      some (x / powerOfTen e.natAbs)
  else if x == 0 then some x
  else if 0 ≤ e then none
  else scaled? (x / powerOfTen 308) (e + 308)
termination_by e.natAbs
decreasing_by omega

/-- The double that a numeral spells, unless it is too large: as many digits as fit 64 bits are
rounded to a double, which is then scaled by a power of ten. -/
def toFloat? (n : Numeral) : Option Float :=
  let (significand, dropped) := absorb 0 n.whole
  let (significand, ignored) := absorb significand n.fraction
  let shift : Int := dropped.length - (n.fraction.length - ignored.length : Nat)
  let power : Int := match n.exponent with
    | none => 0
    | some (negative, ds) => if negative then -Digit.toNat ds else Digit.toNat ds
  (scaled? significand.toUInt64.toFloat (shift + power)).map fun x => if n.negative then -x else x

/-- The text of a numeral. The sign of an exponent is always written. -/
def text (n : Numeral) : String :=
  (if n.negative then "-" else "") ++ Digit.text n.whole
    ++ (if n.fraction.isEmpty then "" else "." ++ Digit.text n.fraction)
    ++ match n.exponent with
      | none => ""
      | some (negative, ds) => (if negative then "e-" else "e+") ++ Digit.text ds

/-- The digits at the start of a text, and the rest of it. -/
def spanDigits : List Char → List Digit × List Char
  | [] => ([], [])
  | c :: cs =>
    match Digit.ofChar? c with
    | some d => ((spanDigits cs).map (d :: ·) id)
    | none => ([], c :: cs)

/-- The exponent that a text spells in full, from its mark on; the empty text has none. -/
def exponentOf? : List Char → Option (Option (Bool × List Digit))
  | [] => some none
  | mark :: cs =>
    if mark = 'e' ∨ mark = 'E' then
      let (negative, cs) := match cs with
        | '-' :: cs => (true, cs)
        | '+' :: cs => (false, cs)
        | cs => (false, cs)
      match spanDigits cs with
      | (d :: ds, []) => some (some (negative, d :: ds))
      | _ => none
    else
      none

/-- The digits before the point of a numeral: a single zero, or no zero in front. -/
def isWhole : List Digit → Bool
  | [] => false
  | [_] => true
  | d :: _ => d != .zero

/-- The numeral that a text spells in full. -/
def ofChars? (cs : List Char) : Option Numeral := do
  let (negative, cs) := match cs with
    | '-' :: cs => (true, cs)
    | cs => (false, cs)
  let (whole, cs) := spanDigits cs
  guard (isWhole whole)
  match cs with
  | '.' :: cs =>
    let (fraction, cs) := spanDigits cs
    guard (!fraction.isEmpty)
    return ⟨negative, whole, fraction, ← exponentOf? cs⟩
  | cs => return ⟨negative, whole, [], ← exponentOf? cs⟩

end Numeral

end InkCanvas.Json
