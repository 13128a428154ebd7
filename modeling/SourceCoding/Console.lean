/-!
# Styled console text

A style colours a text by an escape sequence before it and a reset after it. A reset inside the
text would end the style early, so the style is opened again after each.

## Main definitions

* `Style`: the styles in use
* `Style.paint`: a text in a style, or as it is where styling is off
* `Style.isWanted`: whether styling is on
-/

namespace SourceCoding

/-- The styles of status lines and reports. -/
inductive Style where
  /-- For a title. -/
  | boldCyan
  /-- For an error. -/
  | red
  /-- For success. -/
  | green
  /-- For a warning. -/
  | yellow
  deriving DecidableEq, Repr

namespace Style

/-- The sequence that opens a style. -/
def opening : Style → String
  | .boldCyan => "\x1b[1;36m"
  | .red => "\x1b[31m"
  | .green => "\x1b[32m"
  | .yellow => "\x1b[33m"

/-- The sequence that ends every style. -/
def reset : String := "\x1b[0m"

/-- A text with an opening after each reset. -/
def reopen (opening : String) : List Char → List Char
  | '\x1b' :: '[' :: '0' :: 'm' :: rest => reset.toList ++ opening.toList ++ reopen opening rest
  | c :: rest => c :: reopen opening rest
  | [] => []

/-- **A text in a style**, or as it is where styling is off. -/
def paint (styled : Bool) (s : Style) (text : String) : String :=
  if styled then s.opening ++ String.ofList (reopen s.opening text.toList) ++ reset else text

/-- Styling is on: it is asked for, or nobody refuses it and there is a terminal. The first three
arguments are the settings of the surroundings, of which `0` is a refusal. -/
def isWanted (force refuse allow : Option String) (terminal : Bool) : Bool :=
  if force.any (· ≠ "0") then true
  else if refuse.isSome then false
  else terminal && allow.all (· ≠ "0")

end Style

end SourceCoding
