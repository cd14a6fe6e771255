/-! # The shortest decimal of a double

A double stands for every real number that rounds to it. `Decimal.shortest` finds the decimal
with the fewest digits among those numbers, and of several with that many the one nearest to the
double. It looks at ever finer decimal grids: if a grid has a point in the interval, then one of
the two grid points around the double is in it. All arithmetic is on natural numbers and exact.

In a message a double has these digits, never an exponent, and no fraction if it is a whole number. Of
two equally near decimals the larger is written (`plainText`). -/

namespace InkCanvas

/-! ## Digits -/

/-- One decimal digit. -/
abbrev Digit := Fin 10

namespace Digit

/-- The digit zero. -/
def zero : Digit := ⟨0, by decide⟩

/-- The character of a digit. -/
def toChar (d : Digit) : Char := Char.ofNat ('0'.toNat + d.val)

/-- The digit that a character stands for. -/
def ofChar? (c : Char) : Option Digit :=
  if '0' ≤ c ∧ c ≤ '9' then some (Fin.ofNat 10 (c.toNat - '0'.toNat)) else none

/-- The digits of a number, most significant first; of zero the single digit zero. -/
def ofNat (n : Nat) : List Digit :=
  if n < 10 then [Fin.ofNat 10 n] else ofNat (n / 10) ++ [Fin.ofNat 10 n]

/-- The number that a list of digits spells. -/
def toNat (ds : List Digit) : Nat := ds.foldl (fun n d => n * 10 + d.val) 0

/-- The text of a list of digits. -/
def text (ds : List Digit) : String := String.ofList (ds.map toChar)

end Digit

/-! ## Decimals -/

/-- A positive double, `mantissa · 2 ^ exponent`. -/
structure Binary where
  /-- The significant bits. -/
  mantissa : Nat
  /-- The power of two they are multiplied by. -/
  exponent : Int
  /-- The double below is half as far away as the double above. -/
  atBinade : Bool
  deriving DecidableEq

/-- The magnitude of a finite double. -/
def Binary.ofFloat (x : Float) : Binary :=
  let bits := x.toBits.toNat
  let fraction : Nat := bits % Nat.pow 2 52
  let exponent : Nat := bits / Nat.pow 2 52 % Nat.pow 2 11
  if exponent = 0 then ⟨fraction, -1074, false⟩
  else ⟨Nat.pow 2 52 + fraction, (exponent : Int) - 1075, decide (fraction = 0 ∧ 1 < exponent)⟩

/-- The number `0.d₁d₂… · 10 ^ point`. -/
structure Decimal where
  /-- The significant digits. -/
  digits : List Digit
  /-- Where the decimal point is, counted from the first digit. -/
  point : Int
  deriving DecidableEq

/-- Which of two equally near numbers is taken. -/
inductive Tie where
  /-- The larger. -/
  | up
  /-- The one with an even last digit. -/
  | even
  deriving DecidableEq

namespace Decimal

/-- The number `coefficient · 10 ^ exponent`, without zeros at the end. -/
def ofScaled (coefficient : Nat) (exponent : Int) : Decimal :=
  let digits := Digit.ofNat coefficient
  ⟨(digits.reverse.dropWhile (· == .zero)).reverse, digits.length + exponent⟩

/-- Of the two multiples of `10 ^ k` around `b`, the one that rounds to `b`, as a count of
`10 ^ k`; if both do, the nearer. Everything is counted in quarters of the last bit of `b` and
brought to a common denominator. -/
def onGrid? (tie : Tie) (b : Binary) (k : Int) : Option Nat :=
  let scale := Nat.pow 2 (b.exponent - 2).toNat * Nat.pow 10 (-k).toNat
  let unit := Nat.pow 2 (2 - b.exponent).toNat * Nat.pow 10 k.toNat
  let value := 4 * b.mantissa * scale
  let lower := (4 * b.mantissa - if b.atBinade then 1 else 2) * scale
  let upper := (4 * b.mantissa + 2) * scale
  let closed := b.mantissa % 2 = 0
  let count := value / unit
  let below := count * unit
  let above := below + unit
  let belowFits := lower < below ∨ closed ∧ lower = below
  let aboveFits := above < upper ∨ closed ∧ above = upper
  if belowFits then
    if aboveFits ∧ (above - value < value - below ∨
        above - value = value - below ∧ (tie = .up ∨ count % 2 = 1)) then
      some (count + 1)
    else
      some count
  else if aboveFits then some (count + 1)
  else none

/-- The exponent of the greatest power of ten that is no larger than `b`. -/
def magnitude (b : Binary) : Int :=
  let num := b.mantissa * Nat.pow 2 b.exponent.toNat
  let den := Nat.pow 2 (-b.exponent).toNat
  if den ≤ num then
    (Digit.ofNat (num / den)).length - 1
  else
    let places := (Digit.ofNat (den / num)).length
    if den = num * Nat.pow 10 (places - 1) then 1 - places else -places

/-- The shortest decimal that rounds to a positive double. Seventeen digits always do. -/
def shortest (tie : Tie) (b : Binary) : Decimal :=
  let top := magnitude b
  ((List.range 17).findSome? fun (n : Nat) =>
    (onGrid? tie b (top - n)).map fun count => ofScaled count (top - n)).getD ⟨[.zero], 0⟩

/-- The digits before the decimal point, at least one, and those behind it. -/
def split (d : Decimal) : List Digit × List Digit :=
  if d.point ≤ 0 then
    ([.zero], List.replicate (-d.point).toNat .zero ++ d.digits)
  else
    (d.digits.take d.point.toNat ++ List.replicate (d.point.toNat - d.digits.length) .zero,
      d.digits.drop d.point.toNat)

end Decimal

/-! ## Doubles in running text -/

/-- The sign bit of a double. -/
def signBit (x : Float) : Bool := Nat.pow 2 63 ≤ x.toBits.toNat

/-- The text of a double in a message. -/
def plainText (x : Float) : String :=
  if x.isNaN then "NaN"
  else
    let magnitude :=
      if !x.isFinite then "inf"
      else if x == 0 then "0"
      else
        let (whole, fraction) := (Decimal.shortest .up (.ofFloat x)).split
        Digit.text whole ++ if fraction.isEmpty then "" else "." ++ Digit.text fraction
    if signBit x then "-" ++ magnitude else magnitude

end InkCanvas
