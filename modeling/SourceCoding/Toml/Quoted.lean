/-!
# Reading TOML strings

A string stands between single or double quotes, one of a kind or three. Between double quotes a
backslash introduces an escape; between three of them it may also end a line, and then the line end
and the white space after it do not count. Text between three quotes may hold one or two quotes of
its own kind, also at its end.

## Main definitions

* `Toml.Parser`: reads something at the start of a text
* `Toml.basicBody`, `Toml.literalBody`: the rest of a string after its opening quotes
* `Toml.quoted`: a string
-/

namespace SourceCoding.Toml

/-- **Reads something at the start of a text**, and gives what comes after it. -/
abbrev Parser (α : Type) := List Char → Option (α × List Char)

/-- White space within a line. -/
def isBlank (c : Char) : Bool := c = ' ' || c = '\t'

/-- A character that may stand for itself in a string or a comment. -/
def isPlain (c : Char) : Bool := c = '\t' || (0x20 ≤ c.toNat && c ≠ '\x7f')

/-- The value of an escape of one character. -/
def simpleEscape? : Char → Option Char
  | 'b' => some '\x08'
  | 't' => some '\t'
  | 'n' => some '\n'
  | 'f' => some '\x0c'
  | 'r' => some '\r'
  | 'e' => some '\x1b'
  | '"' => some '"'
  | '\\' => some '\\'
  | _ => none

/-- The value of a hexadecimal digit. -/
def hexValue? (c : Char) : Option Nat :=
  if '0' ≤ c ∧ c ≤ '9' then some (c.toNat - '0'.toNat)
  else if 'a' ≤ c ∧ c ≤ 'f' then some (c.toNat - 'a'.toNat + 10)
  else if 'A' ≤ c ∧ c ≤ 'F' then some (c.toNat - 'A'.toNat + 10)
  else none

/-- The character with a code point in hexadecimal digits. -/
def coded? (digits : List Char) : Option Char := do
  let n ← digits.foldlM (fun n c => (hexValue? c).map (n * 16 + ·)) 0
  if n.isValidChar then some (Char.ofNat n) else none

/-- Where a reader of a string is. -/
inductive Place where
  /-- In the text. -/
  | inText
  /-- After a backslash and white space; the line must end. -/
  | lineEnding
  /-- After a line end that does not count; white space does not count either. -/
  | trimming
  deriving DecidableEq, Repr

/-- A character before the rest of a text that has been read. -/
def push (c : Char) : Option (List Char × List Char) → Option (List Char × List Char)
  | some (text, rest) => some (c :: text, rest)
  | none => none

/-- **The rest of a string with escapes**, after its opening quote or, if `lines`, its opening
quotes. -/
def basicBody (lines : Bool) : Place → List Char → Option (List Char × List Char)
  | _, [] => none
  | place, c :: rest =>
    if place ≠ .inText && isBlank c then basicBody lines place rest
    else if place ≠ .inText && c = '\n' then basicBody lines .trimming rest
    else if place ≠ .inText && c = '\r' then
      match rest with
      | '\n' :: rest => basicBody lines .trimming rest
      | _ => none
    else if place = .lineEnding then none
    else if c = '"' then
      if lines then
        -- of up to five quotes the last three end the string
        match rest with
        | '"' :: '"' :: '"' :: '"' :: rest => some (['"', '"'], rest)
        | '"' :: '"' :: '"' :: rest => some (['"'], rest)
        | '"' :: '"' :: rest => some ([], rest)
        | _ => push c (basicBody lines .inText rest)
      else some ([], rest)
    else if c = '\\' then
      match rest with
      | 'x' :: a :: b :: rest =>
        (coded? [a, b]).bind fun d => push d (basicBody lines .inText rest)
      | 'u' :: a :: b :: c :: d :: rest =>
        (coded? [a, b, c, d]).bind fun e => push e (basicBody lines .inText rest)
      | 'U' :: a :: b :: c :: d :: e :: f :: g :: h :: rest =>
        (coded? [a, b, c, d, e, f, g, h]).bind fun i => push i (basicBody lines .inText rest)
      | d :: rest =>
        match simpleEscape? d with
        -- a backslash before a line end takes the line end away
        | some e => push e (basicBody lines .inText rest)
        | none =>
          if lines && isBlank d then basicBody lines .lineEnding rest
          else if lines && d = '\n' then basicBody lines .trimming rest
          else if lines && d = '\r' then
            match rest with
            | '\n' :: rest => basicBody lines .trimming rest
            | _ => none
          else none
      | [] => none
    else if isPlain c || (lines && c = '\n') then push c (basicBody lines .inText rest)
    else if lines && c = '\r' then
      match rest with
      | '\n' :: rest => push '\r' (push '\n' (basicBody lines .inText rest))
      | _ => none
    else none

/-- **The rest of a string without escapes**, after its opening quote or, if `lines`, its opening
quotes. -/
def literalBody (lines : Bool) : List Char → Option (List Char × List Char)
  | [] => none
  | c :: rest =>
    if c = '\'' then
      if lines then
        match rest with
        | '\'' :: '\'' :: '\'' :: '\'' :: rest => some (['\'', '\''], rest)
        | '\'' :: '\'' :: '\'' :: rest => some (['\''], rest)
        | '\'' :: '\'' :: rest => some ([], rest)
        | _ => push c (literalBody lines rest)
      else some ([], rest)
    else if isPlain c || (lines && c = '\n') then push c (literalBody lines rest)
    else if lines && c = '\r' then
      match rest with
      | '\n' :: rest => push '\r' (push '\n' (literalBody lines rest))
      | _ => none
    else none

/-- A line end right after the opening quotes does not count. -/
def dropLineEnd : List Char → List Char
  | '\n' :: rest => rest
  | '\r' :: '\n' :: rest => rest
  | cs => cs

/-- The text that was read, as a string. -/
def asString : Option (List Char × List Char) → Option (String × List Char) :=
  Option.map fun (text, rest) => (String.ofList text, rest)

/-- A string on one line. -/
def quotedLine : Parser String
  | '"' :: rest => asString (basicBody false .inText rest)
  | '\'' :: rest => asString (literalBody false rest)
  | _ => none

/-- **A string.** -/
def quoted : Parser String
  | '"' :: '"' :: '"' :: rest => asString (basicBody true .inText (dropLineEnd rest))
  | '\'' :: '\'' :: '\'' :: rest => asString (literalBody true (dropLineEnd rest))
  | cs => quotedLine cs

end SourceCoding.Toml
