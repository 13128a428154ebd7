/-!
# TOML strings as they are written

A text has several forms as a TOML string. The one chosen needs the fewest escapes: a basic string
where nothing has to be escaped, a literal string where only quotes or backslashes would have to
be, a string over several lines where quotes or line feeds ask for it.

## Main definitions

* `Toml.Form`, `Toml.formOf`: the forms, and the form of a text
* `Toml.string`: a text in its form
-/

namespace SourceCoding.Toml

/-- The length of the longest run of a character. -/
def longestRun (q : Char) (s : List Char) : Nat :=
  go 0 s
where
  /-- The longest run, of which `n` characters have been passed. -/
  go (n : Nat) : List Char → Nat
    | [] => n
    | c :: rest => if c = q then go (n + 1) rest else max n (go 0 rest)

/-- A control character that has to be written by a code: any but tab and line feed. -/
def isCoded (c : Char) : Bool := (c.toNat < 0x20 && c ≠ '\t' && c ≠ '\n') || c = '\x7f'

/-- **The forms of a string.** -/
inductive Form where
  /-- Between double quotes, with escapes. -/
  | basic
  /-- Between single quotes, without escapes. -/
  | literal
  /-- Between three double quotes, with escapes. -/
  | basicLines
  /-- Between three single quotes, without escapes. -/
  | literalLines
  deriving DecidableEq, Repr

/-- **The form of a text.** -/
def formOf (s : List Char) : Form :=
  let codes := s.any isCoded
  let backslash := s.contains '\\'
  let double := longestRun '"' s
  let single := longestRun '\'' s
  let lines := s.contains '\n'
  if !codes && !backslash && double = 0 && !lines then .basic
  else if !codes && single = 0 && !lines then .literal
  else if !codes && !backslash && double ≤ 2 then .basicLines
  else if !codes && single ≤ 2 then .literalLines
  else if lines then .basicLines
  else .basic

/-- A digit of an escape. -/
def hexDigit (n : Nat) : Char := (Nat.digitChar n).toUpper

/-- A character other than a quote or a line feed in a form with escapes. -/
def escape (c : Char) : List Char :=
  if c = '\x08' then ['\\', 'b']
  else if c = '\t' then ['\\', 't']
  else if c = '\x0c' then ['\\', 'f']
  else if c = '\r' then ['\\', 'r']
  else if c = '\\' then ['\\', '\\']
  else if c.toNat < 0x20 || c = '\x7f' then
    ['\\', 'u', '0', '0', hexDigit (c.toNat / 16), hexDigit (c.toNat % 16)]
  else [c]

/-- A text with escapes, where every quote and line feed is escaped. -/
def basicText (s : List Char) : List Char :=
  s.flatMap fun c =>
    if c = '"' then ['\\', '"'] else if c = '\n' then ['\\', 'n'] else escape c

/-- A text with escapes over several lines. Of a run of quotes every third is escaped, so that no
three of them end the string; `quotes` counts those just written. -/
def linesText (quotes : Nat) : List Char → List Char
  | [] => []
  | c :: rest =>
    if c = '"' then
      if quotes = 2 then '\\' :: '"' :: linesText 0 rest else '"' :: linesText (quotes + 1) rest
    else if c = '\n' then '\n' :: linesText 0 rest
    else escape c ++ linesText 0 rest

/-- Three quotes, a line feed that does not count if the text has one, the text, three quotes. -/
def overLines (quote : Char) (s body : List Char) : List Char :=
  [quote, quote, quote] ++ (if s.contains '\n' then ['\n'] else []) ++ body ++
    [quote, quote, quote]

/-- **A text in its form.** -/
def string (text : String) : List Char :=
  let s := text.toList
  match formOf s with
  | .basic => '"' :: (basicText s ++ ['"'])
  | .literal => '\'' :: (s ++ ['\''])
  | .basicLines => overLines '"' s (linesText 0 s)
  | .literalLines => overLines '\'' s s

end SourceCoding.Toml
