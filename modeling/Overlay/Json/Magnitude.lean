import Overlay.Text.Decimal

/-!
The size of a number that is written in JSON. A number is kept as a double, which is read in two
steps: of the digits, the leading ones that fit into 64 bits are taken and rounded; the power of ten
is rounded too, and the two are multiplied. A number is representable if this product is finite.

Doubles of at least one are handled as the natural numbers they stand for.
-/

namespace Overlay.Json.Magnitude

/-! ## Rounding -/

/-- The multiple of `unit` nearest to `n`; of two equally near ones the even multiple. -/
def roundTo (unit n : Nat) : Nat :=
  let below := n / unit
  let twice := 2 * (n % unit)
  if twice < unit ∨ (twice = unit ∧ below % 2 = 0) then below * unit else (below + 1) * unit

/-- The double nearest to `n`, if doubles had no bound: 53 significant bits. -/
def toDouble (n : Nat) : Nat :=
  roundTo (Nat.pow 2 (n.log2 + 1 - 53)) n

/-- The least number that rounds to infinity. -/
def limit : Nat :=
  Nat.pow 2 1024 - Nat.pow 2 970

/-! ## Digits and exponent -/

/-- A number without its sign: `digits` times ten to the power of `up` less `down`. -/
structure Scaled where
  digits : Nat
  up : Nat
  down : Nat

/-- Takes digits on as long as the number fits into 64 bits; the other digits are left. -/
def takeDigits (n : Nat) : List Char → Nat × List Char
  | [] => (n, [])
  | c :: cs =>
    let longer := n * 10 + (c.toNat - '0'.toNat)
    if longer < UInt64.size then takeDigits longer cs else (n, c :: cs)

/-- Splits a number's text into the digits that are taken and their exponent. A digit that is left
counts for the exponent in front of the point, and not at all behind it. -/
def scaled (text : List Char) : Scaled :=
  let text := text.dropWhile (· == '-')
  let isExponentMark := fun c => c == 'e' || c == 'E'
  let mantissa := text.takeWhile fun c => !isExponentMark c
  let exponent := (text.dropWhile fun c => !isExponentMark c).drop 1
  let whole := mantissa.takeWhile Char.isDigit
  let fraction := (mantissa.dropWhile Char.isDigit).drop 1
  let (digits, leftInFront) := takeDigits 0 whole
  let (digits, leftBehind) := takeDigits digits fraction
  let up := leftInFront.length
  let down := fraction.length - leftBehind.length
  match exponent with
  | '-' :: ds => ⟨digits, up, down + Nat.ofDigitChars 10 ds 0⟩
  | '+' :: ds => ⟨digits, up + Nat.ofDigitChars 10 ds 0, down⟩
  | ds => ⟨digits, up + Nat.ofDigitChars 10 ds 0, down⟩

/-- The greatest power of ten that a double can hold. -/
def greatestPower : Nat :=
  308

/-- The product of digits and power of ten is finite. -/
def Scaled.isFinite (s : Scaled) : Bool :=
  if s.digits = 0 ∨ s.up ≤ s.down then true
  else if greatestPower < s.up - s.down then false
  else toDouble s.digits * toDouble (Nat.pow 10 (s.up - s.down)) < limit

/-- The text of a number stands for a finite double. -/
def isFinite (text : List Char) : Bool :=
  (scaled text).isFinite

end Overlay.Json.Magnitude
