import SourceCoding.Text.Decimal

/-!
# What a plain scalar reads as

A YAML reader takes some plain scalars for something other than text: for null, for a truth value,
for an integer or for a floating-point number. Texts of these forms have to be quoted.

## Main definitions

* `Yaml.isNull`, `Yaml.isBool`, `Yaml.isRadixInteger`, `Yaml.isFloat`: the forms
* `Yaml.readsAsOther`: a text has one of them
-/

namespace SourceCoding.Yaml

/-- The forms of null. -/
def isNull (s : List Char) : Bool :=
  ["null", "Null", "NULL", "~"].any fun form => form.toList = s

/-- The forms of truth values. -/
def isBool (s : List Char) : Bool :=
  ["true", "True", "TRUE", "false", "False", "FALSE"].any fun form => form.toList = s

/-- The sign of a number. -/
def isSign (c : Char) : Bool := c = '+' || c = '-'

/-! ## Integers with a radix -/

/-- The digits after a radix mark write a number below a bound. -/
def hasRadix (bound : Nat) : List Char → Bool
  | '0' :: 'x' :: digits => (number? 16 digits).any (· < bound)
  | '0' :: 'o' :: digits => (number? 8 digits).any (· < bound)
  | '0' :: 'b' :: digits => (number? 2 digits).any (· < bound)
  | _ => false

/-- Integers with a radix mark, in the range of 128 bits. -/
def isRadixInteger : List Char → Bool
  | '-' :: s => hasRadix (Nat.pow 2 127 + 1) s
  | '+' :: s => hasRadix (Nat.pow 2 128) s
  | s => hasRadix (Nat.pow 2 128) s

/-! ## Floating-point numbers -/

/-- Floating-point numbers and their special forms. -/
def isFloat (s : List Char) : Bool :=
  let unsigned := match s with
    | c :: r => if isSign c then r else s
    | [] => s
  let special := fun (forms : List String) (t : List Char) => forms.any fun f => f.toList = t
  special [".inf", ".Inf", ".INF"] unsigned || special [".nan", ".NaN", ".NAN"] s ||
    (Decimal.read? unsigned).any Decimal.isFinite

/-- Digits after a leading zero: text, but easily taken for a number. -/
def isZeroLed (s : List Char) : Bool :=
  match s with
  | '0' :: c :: r => (c :: r).all Char.isDigit
  | a :: '0' :: c :: r => isSign a && (c :: r).all Char.isDigit
  | _ => false

/-- **A plain scalar of this form is not read as text**, or hardly. -/
def readsAsOther (s : List Char) : Bool :=
  s.isEmpty || isNull s || isBool s || isRadixInteger s || isFloat s || isZeroLed s

end SourceCoding.Yaml
