import SourceCoding.Yaml.Resolution

/-!
# YAML scalars

A text is written plain where it would be read back as that text, in single quotes where a plain
form would be taken for something else, as a literal block where it has line feeds, and in double
quotes where nothing else can hold it.

## Main definitions

* `Yaml.isPrintable`, `Yaml.isBreak`: classes of characters
* `Yaml.plainAllowed`, `Yaml.singleAllowed`, `Yaml.literalAllowed`: which styles can hold a text
* `Yaml.scalar`: a text in its style, up to the end of its line
-/

namespace SourceCoding.Yaml

/-- Characters that may stand unescaped. -/
def isPrintable (c : Char) : Bool :=
  c = '\n' || (0x20 ≤ c.toNat && c.toNat ≤ 0x7E) ||
    (0xA0 ≤ c.toNat && c ≠ '\uFEFF' && c ≠ '\uFFFE' && c ≠ '\uFFFF')

/-- Characters that end a line. -/
def isBreak (c : Char) : Bool :=
  c = '\n' || c = '\r' || c = '\x85' || c = '\u2028' || c = '\u2029'

/-- Characters that set an indicator apart. -/
def isGap (c : Char) : Bool := c = ' ' || c = '\t' || c = '\x00' || isBreak c

/-- Characters that a plain scalar may not start with. -/
def isIndicator (c : Char) : Bool :=
  "#,[]\x7b\x7d&*!|>'\"%@`".toList.contains c

/-- A colon before a gap or a hash after one: it would end a plain scalar. -/
def hasInnerIndicator : List Char → Bool
  | ':' :: [] => true
  | a :: b :: rest =>
    (a = ':' && isGap b) || (isGap a && b = '#') || hasInnerIndicator (b :: rest)
  | _ => false

/-- The start of a text would be taken for an indicator. -/
def hasOuterIndicator (s : List Char) : Bool :=
  ['-', '-', '-'].isPrefixOf s || ['.', '.', '.'].isPrefixOf s ||
    match s with
    | c :: rest =>
      isIndicator c || ((c = '?' || c = '-') && (match rest with
        | [] => true
        | d :: _ => isGap d))
    | [] => false

/-- A character of one class is followed by one of another. -/
def hasPair (p q : Char → Bool) : List Char → Bool
  | a :: b :: rest => (p a && q b) || hasPair p q (b :: rest)
  | _ => false

/-- A space. -/
def isSpace (c : Char) : Bool := c = ' '

/-- Escapes are needed: a character cannot be printed, or a space would be lost before a break. -/
def needsEscapes (s : List Char) : Bool := !s.all isPrintable || hasPair isSpace isBreak s

/-- A plain scalar can hold the text. -/
def plainAllowed (s : List Char) : Bool :=
  !needsEscapes s && !s.any isBreak && !s.head?.any isSpace && !s.getLast?.any isSpace &&
    !hasOuterIndicator s && !hasInnerIndicator s

/-- Single quotes can hold the text. -/
def singleAllowed (s : List Char) : Bool := !needsEscapes s && !hasPair isBreak isSpace s

/-- A literal block can hold the text. -/
def literalAllowed (s : List Char) : Bool := !needsEscapes s && !s.getLast?.any isSpace

/-! ## Styles -/

/-- A digit of an escape. -/
def hexDigit (n : Nat) : Char := (Nat.digitChar n).toUpper

/-- The escape of a character by its code point. -/
def escapeCode (n : Nat) : List Char :=
  if n ≤ 0xFF then ['\\', 'x', hexDigit (n / 16), hexDigit (n % 16)]
  else if n ≤ 0xFFFF then
    ['\\', 'u', hexDigit (n / 4096), hexDigit (n / 256 % 16), hexDigit (n / 16 % 16),
      hexDigit (n % 16)]
  else
    ['\\', 'U', '0', '0', hexDigit (n / 1048576), hexDigit (n / 65536 % 16),
      hexDigit (n / 4096 % 16), hexDigit (n / 256 % 16), hexDigit (n / 16 % 16), hexDigit (n % 16)]

/-- A character between double quotes. -/
def escape (c : Char) : List Char :=
  if isPrintable c && !isBreak c && c ≠ '"' && c ≠ '\\' then [c]
  else match c with
    | '\x00' => ['\\', '0']
    | '\x07' => ['\\', 'a']
    | '\x08' => ['\\', 'b']
    | '\t' => ['\\', 't']
    | '\n' => ['\\', 'n']
    | '\x0b' => ['\\', 'v']
    | '\x0c' => ['\\', 'f']
    | '\r' => ['\\', 'r']
    | '\x1b' => ['\\', 'e']
    | '"' => ['\\', '"']
    | '\\' => ['\\', '\\']
    | '\x85' => ['\\', 'N']
    | '\u2028' => ['\\', 'L']
    | '\u2029' => ['\\', 'P']
    | _ => escapeCode c.toNat

/-- A text in double quotes. -/
def double (s : List Char) : List Char := '"' :: (s.flatMap escape ++ ['"'])

/-- A text in which every line that does not start with a break is indented. `fresh` says that a
line is about to start. -/
def indented (indent : Nat) (write : Char → List Char) : Bool → List Char → List Char
  | _, [] => []
  | fresh, c :: rest =>
    if isBreak c then c :: indented indent write true rest
    else (if fresh then List.replicate indent ' ' else []) ++ write c ++
      indented indent write false rest

/-- A text in single quotes; a quote is written twice, and a line after a break is indented. -/
def single (indent : Nat) (s : List Char) : List Char :=
  '\'' :: (indented indent (fun c => if c = '\'' then ['\'', '\''] else [c]) false s ++
    (if s.getLast?.any isBreak then List.replicate indent ' ' else []) ++ ['\''])

/-- What is said about the breaks at the end of a literal block: one is understood, none is
stripped, more are kept. -/
def chomping (s : List Char) : List Char :=
  match s.reverse with
  | [] => ['-']
  | c :: rest =>
    if !isBreak c then ['-']
    else match rest with
      | [] => ['+']
      | d :: _ => if isBreak d then ['+'] else []

/-- A literal block, up to the end of its last line. The indentation is stated if it could not be
read off the first line. -/
def literal (indent : Nat) (s : List Char) : List Char :=
  ['|'] ++ (if s.head?.any (fun c => isSpace c || isBreak c) then ['2'] else []) ++ chomping s ++
    ['\n'] ++ indented indent (fun c => [c]) true s ++
    (if s.getLast?.any isBreak then [] else ['\n'])

/-- **A text in its style**, up to the end of its line. -/
def scalar (indent : Nat) (s : List Char) : List Char :=
  if s.contains '\n' then
    if literalAllowed s then literal indent s else double s ++ ['\n']
  else if plainAllowed s && !readsAsOther s then s ++ ['\n']
  else if singleAllowed s then single indent s ++ ['\n']
  else double s ++ ['\n']

end SourceCoding.Yaml
