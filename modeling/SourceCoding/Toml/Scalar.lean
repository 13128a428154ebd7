import SourceCoding.Text.Decimal
import SourceCoding.Toml.Value

/-!
# Reading TOML numbers, dates and truth values

These values stand without quotes. Numbers may have underscores between digits; a decimal number
starts with no needless zero. A date and its time are joined by a `T` or by one space; seconds may
be left out.

## Main definitions

* `Toml.integer?`, `Toml.isFloat`, `Toml.isDateTime`: the forms
* `Toml.scalar?`: the value written without quotes
-/

namespace SourceCoding.Toml

/-- The digits of a group, without the underscores that may stand between them. -/
def grouped? (isDigit : Char → Bool) : List Char → Option (List Char)
  | [] => none
  | c :: rest =>
    if isDigit c then
      match rest with
      | [] => some [c]
      | '_' :: more => (grouped? isDigit more).map (c :: ·)
      | d :: more => (grouped? isDigit (d :: more)).map (c :: ·)
    else none

/-- Digits that start with a zero only if they are that zero. -/
def isCanonical : List Char → Bool
  | '0' :: _ :: _ => false
  | _ => true

/-- The sign before a number, and the rest. -/
def signed : List Char → Bool × List Char
  | '-' :: rest => (true, rest)
  | '+' :: rest => (false, rest)
  | cs => (false, cs)

/-- The digits of a radix. -/
def isRadixDigit (radix : Nat) (c : Char) : Bool := (digitValue? radix c).isSome

/-- A number in a radix, after its mark. -/
def radixNumber? (radix : Nat) (cs : List Char) : Option Nat :=
  (grouped? (isRadixDigit radix) cs).bind (number? radix)

/-- The integers that can be read: those of 128 bits. -/
def inRange (n : Int) : Bool := -Int.ofNat (Nat.pow 2 127) ≤ n && n < Int.ofNat (Nat.pow 2 128)

/-- An integer, of any size. -/
def wholeNumber? : List Char → Option Int
  | '0' :: 'x' :: cs => (radixNumber? 16 cs).map Int.ofNat
  | '0' :: 'o' :: cs => (radixNumber? 8 cs).map Int.ofNat
  | '0' :: 'b' :: cs => (radixNumber? 2 cs).map Int.ofNat
  | cs => do
    let (negative, cs) := signed cs
    let digits ← grouped? Char.isDigit cs
    let n ← if isCanonical digits then number? 10 digits else none
    pure (if negative then -(n : Int) else n)

/-- **An integer.** -/
def integer? (cs : List Char) : Option Int := (wholeNumber? cs).filter inRange

/-- A digit or an underscore. -/
def isGroupChar (c : Char) : Bool := c.isDigit || c = '_'

/-- The exponent of a floating-point number, if it has one. -/
def exponent? : List Char → Option (Option Int)
  | [] => some none
  | c :: cs =>
    if c = 'e' ∨ c = 'E' then do
      let (negative, cs) := signed cs
      let n ← (grouped? Char.isDigit cs).bind (number? 10)
      pure (some (if negative then -(n : Int) else n))
    else none

/-- The fraction of a floating-point number, if it has one, and what comes after it. -/
def fraction? : List Char → Option (Option (List Char) × List Char)
  | '.' :: cs => (grouped? Char.isDigit (cs.takeWhile isGroupChar)).map fun digits =>
    (some digits, cs.dropWhile isGroupChar)
  | cs => some (none, cs)

/-- A floating-point number with digits, in the range of doubles. -/
def isFloat (cs : List Char) : Bool :=
  let cs := (signed cs).2
  (do
    let whole ← grouped? Char.isDigit (cs.takeWhile isGroupChar)
    let (fraction, rest) ← fraction? (cs.dropWhile isGroupChar)
    let exponent ← exponent? rest
    if isCanonical whole && (fraction.isSome || exponent.isSome) then
      Decimal.ofParts? whole (fraction.getD []) (exponent.getD 0)
    else none).any Decimal.isFinite

/-- A floating-point number of a special value. -/
def isSpecialFloat (cs : List Char) : Bool :=
  let cs := (signed cs).2
  cs = ['i', 'n', 'f'] || cs = ['n', 'a', 'n']

/-! ## Dates and times -/

/-- The year is a leap year. -/
def isLeapYear (year : Nat) : Bool := year % 4 = 0 && (year % 100 ≠ 0 || year % 400 = 0)

/-- The number of days of a month. -/
def daysInMonth (year month : Nat) : Nat :=
  if month = 2 then (if isLeapYear year then 29 else 28)
  else if month = 4 ∨ month = 6 ∨ month = 9 ∨ month = 11 then 30
  else 31

/-- What comes after a date. -/
def afterDate? : List Char → Option (List Char)
  | y₁ :: y₂ :: y₃ :: y₄ :: '-' :: m₁ :: m₂ :: '-' :: d₁ :: d₂ :: rest => do
    let year ← number? 10 [y₁, y₂, y₃, y₄]
    let month ← number? 10 [m₁, m₂]
    let day ← number? 10 [d₁, d₂]
    if 1 ≤ month ∧ month ≤ 12 ∧ 1 ≤ day ∧ day ≤ daysInMonth year month then some rest else none
  | _ => none

/-- What comes after hours and minutes. -/
def afterMinutes? (cs : List Char) : Option (List Char) :=
  match cs with
  | h₁ :: h₂ :: ':' :: m₁ :: m₂ :: rest => do
    let hour ← number? 10 [h₁, h₂]
    let minute ← number? 10 [m₁, m₂]
    if hour ≤ 23 ∧ minute ≤ 59 then some rest else none
  | _ => none

/-- What comes after a fraction of a second. -/
def afterFraction? : List Char → Option (List Char)
  | '.' :: d :: rest => if d.isDigit then some (rest.dropWhile Char.isDigit) else none
  | '.' :: [] => none
  | cs => some cs

/-- What comes after a time; a leap second is allowed. -/
def afterTime? (cs : List Char) : Option (List Char) := do
  match ← afterMinutes? cs with
  | ':' :: s₁ :: s₂ :: rest =>
    if (← number? 10 [s₁, s₂]) ≤ 60 then afterFraction? rest else none
  | rest => some rest

/-- An offset from universal time, or none. -/
def isOffset : List Char → Bool
  | [] => true
  | c :: rest =>
    ((c = 'Z' || c = 'z') && rest.isEmpty) ||
      ((c = '+' || c = '-') && afterMinutes? rest = some [])

/-- **A date, a time or both.** -/
def isDateTime (cs : List Char) : Bool :=
  match afterDate? cs with
  | some [] => true
  | some (c :: rest) => (c = 'T' || c = 't' || c = ' ') && (afterTime? rest).any isOffset
  | none => afterTime? cs = some []

/-- **The value written without quotes.** -/
def scalar? (cs : List Char) : Option Value :=
  if cs = "true".toList then some (.boolean true)
  else if cs = "false".toList then some (.boolean false)
  else match integer? cs with
    | some n => some (.integer n)
    | none =>
      if isFloat cs || isSpecialFloat cs then some (.float (String.ofList cs))
      else if isDateTime cs then some (.dateTime (String.ofList cs))
      else none

end SourceCoding.Toml
