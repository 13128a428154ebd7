/-!
# Decimal numbers

A decimal number is kept as its digits and a power of ten, so that it can be compared with the
range of doubles without being computed.

## Main definitions

* `number?`: the number written by digits in a radix
* `Decimal`: digits and an exponent
* `Decimal.isFinite`: the number is in the range of doubles
* `Decimal.read?`: a decimal number in writing
-/

namespace SourceCoding

/-- The value of a digit in a radix up to sixteen. -/
def digitValue? (radix : Nat) (c : Char) : Option Nat :=
  let value :=
    if c.isDigit then c.toNat - '0'.toNat
    else if 'a' ≤ c ∧ c ≤ 'f' then c.toNat - 'a'.toNat + 10
    else if 'A' ≤ c ∧ c ≤ 'F' then c.toNat - 'A'.toNat + 10
    else 16
  if value < radix then some value else none

/-- **The number written by digits** in a radix; there must be a digit. -/
def number? (radix : Nat) (s : List Char) : Option Nat :=
  if s = [] then none
  else s.foldlM (fun n c => (digitValue? radix c).map (n * radix + ·)) 0

/-- **A decimal number**: its digits as one number, and the power of ten to multiply it by. -/
structure Decimal where
  /-- The digits without the point. -/
  digits : Nat
  /-- The exponent. -/
  exponent : Int
  deriving DecidableEq, Repr

namespace Decimal

/-- The least number that is too large for a double: half a unit beyond the greatest double. -/
def overflow : Nat := Nat.pow 2 1024 - Nat.pow 2 970

/-- **The number is in the range of doubles.** The number of digits settles it unless it is near
the end of the range. -/
def isFinite (d : Decimal) : Bool :=
  let magnitude := (Nat.toDigits 10 d.digits).length + d.exponent
  if d.digits = 0 || magnitude < 0 then true
  else if 310 < magnitude then false
  else d.digits * Nat.pow 10 d.exponent.toNat < overflow * Nat.pow 10 (-d.exponent).toNat

/-- The number written by a whole part, a fraction and an exponent, all digits. -/
def ofParts? (whole fraction : List Char) (exponent : Int) : Option Decimal :=
  (number? 10 (whole ++ fraction)).map fun n => ⟨n, exponent - fraction.length⟩

/-- The exponent of a decimal number, if it is written in full. -/
def exponent? : List Char → Option Int
  | [] => some 0
  | c :: s =>
    if c = 'e' ∨ c = 'E' then
      match s with
      | '-' :: digits => (number? 10 digits).map fun n => -(n : Int)
      | '+' :: digits => (number? 10 digits).map fun n => (n : Int)
      | digits => (number? 10 digits).map fun n => (n : Int)
    else none

/-- **An unsigned decimal number**: digits with a point among them or not, then an exponent or
not. -/
def read? (s : List Char) : Option Decimal := do
  let whole := s.takeWhile Char.isDigit
  let (fraction, rest) := match s.dropWhile Char.isDigit with
    | '.' :: r => (r.takeWhile Char.isDigit, r.dropWhile Char.isDigit)
    | r => ([], r)
  Decimal.ofParts? whole fraction (← exponent? rest)

end Decimal

end SourceCoding
