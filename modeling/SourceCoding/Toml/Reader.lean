import SourceCoding.Toml.Quoted
import SourceCoding.Toml.Scalar

/-!
# Reading TOML documents

A document is read line by line into statements, and the statements are carried out one by one on
an empty table. A line is an assignment, the header of a table, the header of one more table of an
array, or nothing; a comment may end it. Texts of three quotes, arrays and inline tables may go over
several lines, in an inline table also between a key, the equals sign and the value.

## Main definitions

* `Toml.value`: a value, with a limit to the depth of arrays and inline tables
* `Toml.Statement`, `Toml.statements`: the statements of a document
* `Toml.Statement.run`, `Toml.read`: what they amount to
-/

namespace SourceCoding.Toml

/-! ## Between the values -/

/-- White space within a line passed over. -/
def skipBlanks (cs : List Char) : List Char := cs.dropWhile isBlank

/-- White space, line ends and comments passed over. -/
def skipTrivia (inComment : Bool) : List Char → Option (List Char)
  | [] => some []
  | c :: rest =>
    if c = '\n' then skipTrivia false rest
    else if c = '\r' then
      match rest with
      | '\n' :: rest => skipTrivia false rest
      | _ => none
    else if inComment then if isPlain c then skipTrivia true rest else none
    else if isBlank c then skipTrivia false rest
    else if c = '#' then skipTrivia true rest
    else some (c :: rest)

/-- The rest of a line passed over: white space and a comment. -/
def endLine (inComment : Bool) : List Char → Option (List Char)
  | [] => some []
  | c :: rest =>
    if c = '\n' then some rest
    else if c = '\r' then
      match rest with
      | '\n' :: rest => some rest
      | _ => none
    else if inComment then if isPlain c then endLine true rest else none
    else if isBlank c then endLine false rest
    else if c = '#' then endLine true rest
    else none

/-! ## Keys -/

/-- A character of a key without quotes. -/
def isKeyChar (c : Char) : Bool := c.isAlphanum || c = '_' || c = '-'

/-- One part of a key. -/
def keyPart (cs : List Char) : Option (String × List Char) :=
  match cs with
  | '"' :: _ | '\'' :: _ => quotedLine cs
  | _ =>
    match cs.takeWhile isKeyChar with
    | [] => none
    | part => some (String.ofList part, cs.dropWhile isKeyChar)

/-- The parts of a key after the first, each after a dot. -/
def moreKeyParts : Nat → List Char → Option (List String × List Char)
  | 0, _ => none
  | fuel + 1, cs =>
    match skipBlanks cs with
    | '.' :: rest => do
      let (part, rest) ← keyPart (skipBlanks rest)
      let (parts, rest) ← moreKeyParts fuel rest
      pure (part :: parts, rest)
    | rest => some ([], rest)

/-- The most parts of a key. -/
def keyLimit : Nat := 80

/-- A key: the parts before the last, and the last. -/
def key (cs : List Char) : Option ((List String × String) × List Char) := do
  let (first, rest) ← keyPart (skipBlanks cs)
  let (more, rest) ← moreKeyParts (rest.length + 1) rest
  let parts := first :: more
  guard (parts.length ≤ keyLimit)
  pure ((parts.dropLast, parts.getLast?.getD first), rest)

/-! ## Values -/

/-- A character of a value without quotes. -/
def isScalarChar (c : Char) : Bool :=
  c.isAlphanum || c = '_' || c = '-' || c = '+' || c = '.' || c = ':'

/-- The characters of a value without quotes. After a date one space may come before the time. -/
def scalarChars (cs : List Char) : List Char × List Char :=
  let chars := cs.takeWhile isScalarChar
  match afterDate? chars, cs.dropWhile isScalarChar with
  | some [], ' ' :: d :: rest =>
    if d.isDigit then
      (chars ++ ' ' :: (d :: rest).takeWhile isScalarChar, (d :: rest).dropWhile isScalarChar)
    else (chars, ' ' :: d :: rest)
  | _, rest => (chars, rest)

/-- A value without quotes. -/
def scalar (cs : List Char) : Option (Value × List Char) :=
  let (chars, rest) := scalarChars cs
  (scalar? chars).map (·, rest)

/-- The items up to a closing bracket, with a comma after each but perhaps the last. -/
def items {α : Type} (closing : Char) (item : Parser α) : Nat → Parser (List α)
  | 0, _ => none
  | fuel + 1, cs => do
    match ← skipTrivia false cs with
    | [] => none
    | c :: rest =>
      if c = closing then some ([], rest)
      else do
        let (x, rest) ← item (c :: rest)
        match ← skipTrivia false rest with
        | ',' :: rest => do
          let (xs, rest) ← items closing item fuel rest
          pure (x :: xs, rest)
        | c :: rest => if c = closing then some ([x], rest) else none
        | [] => none

/-- A key, an equals sign and a value; `skip` passes over what may stand around the sign. -/
def assignment (skip : List Char → Option (List Char)) (value : Parser Value) (cs : List Char) :
    Option ((List String × String × Value) × List Char) := do
  let ((path, name), rest) ← key cs
  match ← skip rest with
  | '=' :: rest => do
    let (v, rest) ← value (← skip rest)
    pure ((path, name, v), rest)
  | _ => none

/-- The table of the assignments in an inline table. -/
def inlineFields (assignments : List (List String × String × Value)) : Option Fields :=
  assignments.foldlM
    (fun fields (path, name, v) => Fields.assign [] path name v .opened fields) []

/-- **A value**, in which arrays and inline tables are nested at most so deep. -/
def value : Nat → Parser Value
  | depth, cs =>
    match cs with
    | [] => none
    | c :: rest =>
      if c = '"' ∨ c = '\'' then (quoted (c :: rest)).map fun (s, rest) => (.text s, rest)
      else if c = '[' then
        match depth with
        | 0 => none
        | depth + 1 =>
          (items ']' (value depth) (rest.length + 1) rest).map fun (xs, rest) => (.array xs, rest)
      else if c = '\x7b' then
        match depth with
        | 0 => none
        | depth + 1 => do
          let (xs, rest) ←
            items '\x7d' (assignment (skipTrivia false) (value depth)) (rest.length + 1) rest
          pure (.table .inline (← inlineFields xs), rest)
      else scalar (c :: rest)

/-- The depth to which arrays and inline tables may be nested. -/
def depthLimit : Nat := 80

/-! ## Statements -/

/-- **A statement** of a document. -/
inductive Statement where
  /-- A value for a key: the parts before the last, the last, and the value. -/
  | assign (path : List String) (name : String) (value : Value)
  /-- The header of a table. -/
  | openTable (path : List String) (name : String)
  /-- The header of one more table of an array. -/
  | openItem (path : List String) (name : String)
  deriving Repr

/-- The header of a table, after its opening bracket. -/
def header (cs : List Char) : Option (Statement × List Char) := do
  match cs with
  | '[' :: rest =>
    let ((path, name), rest) ← key rest
    match skipBlanks rest with
    | ']' :: ']' :: rest => some (.openItem path name, rest)
    | _ => none
  | cs =>
    let ((path, name), rest) ← key cs
    match skipBlanks rest with
    | ']' :: rest => some (.openTable path name, rest)
    | _ => none

/-- A statement at the start of a text. -/
def statement (cs : List Char) : Option (Statement × List Char) :=
  match cs with
  | '[' :: rest => header rest
  | _ => (assignment (some ∘ skipBlanks) (value depthLimit) cs).map fun ((path, name, v), rest) =>
    (.assign path name v, rest)

/-- The statements of a text, each on lines of its own. -/
def statementsFrom : Nat → List Char → Option (List Statement)
  | 0, _ => none
  | fuel + 1, cs => do
    match ← skipTrivia false cs with
    | [] => some []
    | c :: rest =>
      let (s, rest) ← statement (c :: rest)
      let rest ← endLine false rest
      (← statementsFrom fuel rest) |> (s :: ·) |> some

/-- **The statements of a document**, a byte order mark before it passed over. -/
def statements (text : String) : Option (List Statement) :=
  let cs := match text.toList with
    | '\uFEFF' :: rest => rest
    | cs => cs
  statementsFrom (cs.length + 1) cs

/-- A document as far as it has been read: the last header and the table so far. -/
structure Draft where
  /-- The path of the last header. -/
  header : List String := []
  /-- The table so far. -/
  fields : Fields := []

/-- **What a statement does** to a document. -/
def Statement.run (d : Draft) : Statement → Option Draft
  | .assign path name v => (Fields.assign d.header path name v .opened d.fields).map fun fields =>
    { d with fields }
  | .openTable path name => (Fields.openTable path name d.fields).map fun fields =>
    { header := path ++ [name], fields }
  | .openItem path name => (Fields.openItem path name d.fields).map fun fields =>
    { header := path ++ [name], fields }

/-- **The table of a document.** -/
def read (text : String) : Option Fields := do
  let d ← (← statements text).foldlM Statement.run {}
  pure d.fields

end SourceCoding.Toml
