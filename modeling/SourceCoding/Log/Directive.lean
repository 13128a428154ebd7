import SourceCoding.Log.Limit
import SourceCoding.Pattern
import SourceCoding.Text.Cut
import SourceCoding.Text.Character

/-!
# Directives for the log

A directive speaks of the records of a part of the program, or of those with a certain field, and
limits what is shown of them.

A directive may also speak of spans, which are stretches of work that enclose records, or of fields
with certain values, which only spans are asked for. Records lie in no span here, so such a
directive never shows one.

## Main definitions

* `Directive`: one directive
* `DirectiveError`: what can be wrong with a written one
* `Cursor`: a place in a written directive
* `Directive.read`: a directive in writing
* `Directive.covers`: the directive speaks of a record
* `Directive.decisive`: which of two directives decides
-/

namespace SourceCoding

/-- Which records of a part of the program a directive speaks of. -/
inductive Coverage where
  /-- All of them. -/
  | all
  /-- Those with a certain field. -/
  | withField (name : String)
  /-- Those in certain spans. -/
  | inSpan
  deriving DecidableEq, Repr

/-- **A directive.** -/
structure Directive where
  /-- What the name of the part of the program starts with, if that matters. -/
  target : Option String
  /-- Which records of that part are spoken of. -/
  coverage : Coverage
  /-- The limit. -/
  limit : Limit
  deriving DecidableEq, Repr

/-- What can be wrong with a written directive. -/
inductive DirectiveError where
  /-- It does not have the form of one. -/
  | malformed
  /-- Its limit is unknown. -/
  | unknownLimit
  /-- The value of a field is no pattern. -/
  | invalidPattern
  /-- The value of a field asks for boundaries of words among all characters. -/
  | wordBoundary
  /-- A piece of it would start or end inside a character. -/
  | splitCharacter (split : SplitCharacter)
  deriving DecidableEq, Repr

/-- The text for what is wrong. -/
def DirectiveError.message : DirectiveError → String
  | .malformed => "invalid filter directive"
  | .unknownLimit => "error parsing level filter: expected one of \"off\", \"error\", \"warn\", " ++
      "\"info\", \"debug\", \"trace\", or a number 0-5"
  | .invalidPattern => "invalid field filter: error building NFA"
  | .wordBoundary => "invalid field filter: unsupported regex feature for DFAs: cannot build " ++
      "DFAs for regexes with Unicode word boundaries; switch to ASCII word boundaries, or " ++
      "heuristically enable Unicode word boundaries or use a different regex engine"
  | .splitCharacter split => split.message

/-! ## Places in a directive -/

/-- A text without white space at its ends. -/
def trim (text : List Char) : List Char :=
  ((text.dropWhile isBlank).reverse.dropWhile isBlank).reverse

/-- **A place in a written directive.** The marks between its pieces are found in the directive
without the white space at its ends. The pieces themselves are taken from the directive as it is, at
the same distance in bytes from its start, and the last one goes up to its end. So white space at
the start shifts them, and may shift an end of them into a character. -/
structure Cursor where
  /-- The directive as it is. -/
  text : List Char
  /-- What is left of the directive without white space at its ends. -/
  form : List Char
  /-- How many bytes have been passed over. -/
  offset : Nat := 0
  deriving DecidableEq, Repr

namespace Cursor

/-- The start of a directive. -/
def start (text : List Char) : Cursor := { text, form := trim text }

/-- The mark at a place, and the place after it. -/
def mark? (c : Cursor) : Option (Char × Cursor) :=
  match c.form with
  | [] => none
  | m :: form => some (m, { c with form, offset := c.offset + m.utf8Size })

/-- The place of the next mark. -/
def advance (isMark : Char → Bool) (c : Cursor) : Cursor :=
  let passed := String.ofList (c.form.takeWhile (!isMark ·))
  { c with form := c.form.dropWhile (!isMark ·), offset := c.offset + passed.utf8ByteSize }

/-- The piece before the next mark, that mark, and the place after it, if there is a mark. -/
def next? (isMark : Char → Bool) (c : Cursor) :
    Except DirectiveError (Option (List Char × Char × Cursor)) :=
  let stop := c.advance isMark
  match stop.mark? with
  | none => .ok none
  | some (m, after) => match slice c.text c.offset stop.offset with
    | .ok piece => .ok (some (piece, m, after))
    | .error split => .error (.splitCharacter split)

/-- The last piece. -/
def lastPiece (c : Cursor) : Except DirectiveError (List Char) :=
  (sliceFrom c.text c.offset).mapError .splitCharacter

end Cursor

namespace Directive

/-! ## The written form -/

/-- The limit after an equals sign; nothing there means no limit. -/
def readLimit : List Char → Except DirectiveError Limit
  | [] => .ok (some .trace)
  | text => match Limit.read? text with
    | some limit => .ok limit
    | none => .error .unknownLimit

/-- What may follow a bracket that is closed. -/
def readTail (c : Cursor) : Except DirectiveError Limit :=
  match c.mark? with
  | none => .ok (some .trace)
  | some ('=', c) => do readLimit (← c.lastPiece)
  | some _ => .error .malformed

/-- The value of a field is one that can be asked for. -/
def checkValue (value : List Char) : Except DirectiveError Unit :=
  if Pattern.isNumber value then .ok ()
  else match Pattern.read? value with
    | none => .error .invalidPattern
    | some o => if o.wordBoundary then .error .wordBoundary else .ok ()

/-- A field in braces: its name, and its value after an equals sign. What stands after a further
equals sign does not count. -/
def readField (text : List Char) : Except DirectiveError (List Char × Option (List Char)) :=
  if text = [] then .error .malformed
  else
    let plain := fun c : Char => c ≠ '='
    match text.dropWhile plain with
    | [] => .ok (text, none)
    | _ :: rest => do
      let value := rest.takeWhile plain
      checkValue value
      pure (text.takeWhile plain, some value)

/-- What stands in brackets: the name of a span, a field in braces, or both. A field with a value is
one of a span. -/
def readCoverage (c : Cursor) : Except DirectiveError (Coverage × Cursor) := do
  match ← c.next? fun c => c = ']' ∨ c = '\x7b' with
  | none => throw .malformed
  | some (_, ']', c) => pure (.inSpan, c)
  | some (span, _, c) =>
    match ← c.next? (· = '\x7d') with
    | none => throw .malformed
    | some (text, _, c) =>
      let (name, value) ← readField text
      match c.mark? with
      | some (']', c) =>
        if span = [] ∧ value = none then pure (.withField (String.ofList name), c)
        else pure (.inSpan, c)
      | _ => throw .malformed

/-- A directive with brackets. -/
def readScoped (target : Option String) (c : Cursor) : Except DirectiveError Directive := do
  let (coverage, c) ← readCoverage c
  pure ⟨target, coverage, ← readTail c⟩

/-- The name of a part of the program may start with the character. -/
def startsName (c : Char) : Bool := c == '-' || c == ':' || c == '_' || isLetterOrNumeral c

/-- A directive that starts with a name. A name by itself is a limit if it can be one. -/
def readNamed (c : Cursor) : Except DirectiveError Directive := do
  match ← c.next? fun c => c = '=' ∨ c = '[' with
  | some (name, '[', c) => readScoped (some (String.ofList name)) c
  | some (name, _, c) => pure ⟨some (String.ofList name), .all, ← readLimit (← c.lastPiece)⟩
  | none =>
    let name ← c.lastPiece
    match Limit.read? name with
    | some limit => pure ⟨none, .all, limit⟩
    | none => pure ⟨some (String.ofList name), .all, some .trace⟩

/-- **A written directive.** -/
def read (text : String) : Except DirectiveError Directive :=
  let c := Cursor.start text.toList
  match c.mark? with
  | none => .error .malformed
  | some ('[', inside) => readScoped none inside
  | some (first, _) => if startsName first then readNamed c else .error .malformed

/-! ## Which records it speaks of -/

/-- The directive speaks of a record. -/
def covers (d : Directive) (r : LogRecord) : Bool :=
  (d.target.all fun start => start.toList.isPrefixOf r.source.target.toList) &&
    match d.coverage with
    | .all => true
    | .withField name => r.hasField name
    | .inSpan => false

/-- The length of the name it speaks of. -/
def reach (d : Directive) : Nat := (d.target.map String.utf8ByteSize).getD 0

/-- A directive is more specific than another by a longer name, at equal length by a field; among
fields by the order of texts. -/
def isMoreSpecific (d e : Directive) : Bool :=
  if d.reach ≠ e.reach then e.reach < d.reach
  else match d.coverage, e.coverage with
    | .withField a, .withField b => b < a
    | .withField _, _ => true
    | _, _ => false

/-- The one of two directives that decides; `later` stands after `earlier`. -/
def decisive (earlier : Option Directive) (later : Directive) : Option Directive :=
  match earlier with
  | some d => if d.isMoreSpecific later then some d else some later
  | none => some later

end Directive

end SourceCoding
