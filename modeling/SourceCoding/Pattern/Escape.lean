import SourceCoding.Text.Character
import SourceCoding.Text.Decimal

/-!
# Escapes in patterns

A backslash takes the meaning from a sign, or gives one to a letter: a set of characters, a position
in the text, or a character that is hard to type. How a pattern is read depends on its mode, which
groups can change.

## Main definitions

* `Mode`: how a pattern is read
* `Atom`: what an escape or a single character can stand for
* `escape`: what stands after a backslash
-/

namespace SourceCoding.Pattern

/-! ## Modes -/

/-- **How a pattern is read.** -/
structure Mode where
  /-- White space and comments do not count. -/
  spaced : Bool := false
  /-- The text is one of characters of Unicode; otherwise one of bytes. -/
  unicode : Bool := true
  deriving DecidableEq, Repr

/-- White space and comments passed over; a comment ends with its line. -/
def skipSpace (inComment : Bool) : List Char → List Char
  | [] => []
  | c :: rest =>
    if inComment then skipSpace (c ≠ '\n') rest
    else if isBlank c then skipSpace false rest
    else if c = '#' then skipSpace true rest
    else c :: rest

theorem length_skipSpace_le (inComment : Bool) (cs : List Char) :
    (skipSpace inComment cs).length ≤ cs.length := by
  fun_induction skipSpace inComment cs <;> simp only [List.length_cons, Nat.le_refl] <;> omega

namespace Mode

/-- What does not count passed over. -/
def skip (m : Mode) (cs : List Char) : List Char := if m.spaced then skipSpace false cs else cs

theorem length_skip_le (m : Mode) (cs : List Char) : (m.skip cs).length ≤ cs.length := by
  unfold skip
  split
  · exact length_skipSpace_le false cs
  · exact Nat.le_refl _

/-- The next character that counts. The sign of a comment is passed over here, but not its text. -/
def peek (m : Mode) (cs : List Char) : Option Char :=
  if m.spaced then
    match cs.dropWhile isBlank with
    | '#' :: rest => (rest.dropWhile isBlank).head?
    | rest => rest.head?
  else cs.head?

end Mode

/-! ## Escapes -/

/-- **What an escape or a single character can stand for.** -/
inductive Atom where
  /-- The character itself. -/
  | literal (c : Char)
  /-- Any character of a set. -/
  | anyOf
  /-- A position in the text. -/
  | position
  /-- A position at the end of a word, or inside one. -/
  | wordPosition
  deriving DecidableEq, Repr

/-- A number of so many hexadecimal digits, put after the digits of another. -/
def hexNumber (m : Mode) : Nat → Nat → List Char → Option (Nat × List Char)
  | 0, n, cs => some (n, cs)
  | digits + 1, n, cs =>
    match m.skip cs with
    | [] => none
    | c :: rest => do hexNumber m digits (n * 16 + (← digitValue? 16 c)) rest

/-- A character by its code point in so many digits. -/
def codePoint (m : Mode) (digits : Nat) (cs : List Char) : Option (Atom × List Char) := do
  let (n, rest) ← hexNumber m digits 0 cs
  guard n.isValidChar
  pure (.literal (Char.ofNat n), rest)

/-- Two digits are a byte where the text is one of bytes, and only ASCII is text by itself. -/
def byteOrCodePoint (m : Mode) (cs : List Char) : Option (Atom × List Char) := do
  let (n, rest) ← hexNumber m 2 0 cs
  guard (m.unicode || n < 0x80)
  pure (.literal (Char.ofNat n), rest)

/-- A general category by its letter. One in braces cannot occur, as a closing brace ends the
pattern. -/
def category (m : Mode) (cs : List Char) : Option (Atom × List Char) := do
  match m.skip cs with
  | [] => none
  | c :: rest =>
    guard (m.unicode && c.toLower ∈ ['c', 'l', 'm', 'n', 'p', 's', 'z'])
    pure (.anyOf, rest)

/-- **What stands after a backslash.** -/
def escape (m : Mode) : List Char → Option (Atom × List Char)
  | [] => none
  | c :: rest =>
    match c with
    | 'x' => byteOrCodePoint m rest
    | 'u' => codePoint m 4 rest
    | 'U' => codePoint m 8 rest
    | 'p' | 'P' => category m rest
    | 'd' | 's' | 'w' => some (.anyOf, rest)
    | 'D' | 'S' | 'W' => if m.unicode then some (.anyOf, rest) else none
    | 'a' => some (.literal '\x07', rest)
    | 'f' => some (.literal '\x0c', rest)
    | 't' => some (.literal '\t', rest)
    | 'n' => some (.literal '\n', rest)
    | 'r' => some (.literal '\r', rest)
    | 'v' => some (.literal '\x0b', rest)
    | 'A' | 'z' => some (.position, rest)
    | 'b' | 'B' | '<' | '>' => some (.wordPosition, rest)
    | c => if c.isAlphanum || 0x80 ≤ c.toNat then none else some (.literal c, rest)

end SourceCoding.Pattern
