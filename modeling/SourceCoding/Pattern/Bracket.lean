import SourceCoding.Pattern.Escape

/-!
# Outlines of patterns and sets of characters in them

Of a pattern only two things are kept: how deeply its parts are nested, and whether it asks for
boundaries of words among the characters of Unicode. Both come from those of its parts.

A set in brackets lists characters, ranges, escapes, named sets and further sets in brackets, and
may combine two lists by an operator of two signs. Where the text is one of bytes a set must hold
ASCII only, so none can be a complement there.

## Main definitions

* `Outline`: what is kept of a part
* `Outline.raise`: a part around another
* `Row`, `Row.outline`: parts side by side as one part
* `setRange`: a character, a range or an escape in a set
* `namedSet?`: a set by its name
* `set`: a set, after its opening bracket
-/

namespace SourceCoding.Pattern

/-! ## Outlines -/

/-- **What is kept of a part of a pattern.** -/
structure Outline where
  /-- How deeply parts are nested in it. -/
  height : Nat := 0
  /-- Boundaries of words are asked for. -/
  wordBoundary : Bool := false
  deriving DecidableEq, Repr

namespace Outline

/-- A part without parts. -/
def leaf : Outline := {}

/-- A part around another. -/
def raise (o : Outline) : Outline := { o with height := o.height + 1 }

/-- What is kept of two parts together. -/
def max (o p : Outline) : Outline := ⟨Nat.max o.height p.height, o.wordBoundary || p.wordBoundary⟩

end Outline

/-- **Parts side by side.** -/
structure Row where
  /-- How many they are. -/
  count : Nat := 0
  /-- What is kept of them together. -/
  parts : Outline := .leaf
  deriving DecidableEq, Repr

namespace Row

/-- One more part. -/
def add (r : Row) (o : Outline) : Row := ⟨r.count + 1, r.parts.max o⟩

/-- The parts as one part; two or more are nested in it. -/
def outline (r : Row) : Outline := if r.count ≤ 1 then r.parts else r.parts.raise

end Row

/-! ## Sets of characters -/

/-- A character or escape in a set; where the text is one of bytes it must be ASCII. -/
def setItem (m : Mode) (cs : List Char) : Option (Atom × List Char) := do
  let (a, rest) ← match cs with
    | '\\' :: rest => escape m rest
    | c :: rest => some (.literal c, rest)
    | [] => none
  match a with
  | .literal c => if m.unicode || c.toNat < 0x80 then some (a, rest) else none
  | .anyOf => some (a, rest)
  | .position | .wordPosition => none

/-- A range of characters is in order. -/
def isRange : Atom → Atom → Bool
  | .literal first, .literal last => first ≤ last
  | _, _ => false

/-- **A character, a range or an escape in a set.** A hyphen before another one or before the
closing bracket makes no range. -/
def setRange (m : Mode) (cs : List Char) : Option (List Char) := do
  let (first, rest) ← setItem m cs
  match m.skip rest with
  | '-' :: after =>
    if m.peek after = some ']' ∨ m.peek after = some '-' then pure ('-' :: after)
    else
      let (last, rest) ← setItem m (m.skip after)
      guard (isRange first last)
      pure rest
  | rest => pure rest

/-- The names of sets. -/
def setNames : List String :=
  ["alnum", "alpha", "ascii", "blank", "cntrl", "digit", "graph", "lower", "print", "punct",
    "space", "upper", "word", "xdigit"]

/-- **A set by its name** between colons, after its opening bracket: whether it is a complement, and
what follows. -/
def namedSet? : List Char → Option (Bool × List Char)
  | ':' :: rest =>
    let (complement, rest) := match rest with
      | '^' :: rest => (true, rest)
      | rest => (false, rest)
    match rest.dropWhile (· ≠ ':') with
    | ':' :: ']' :: after =>
      if String.ofList (rest.takeWhile (· ≠ ':')) ∈ setNames then some (complement, after) else none
    | _ => none
  | _ => none

/-- Hyphens at the start of a set, which are meant as such. -/
def setHyphens (m : Mode) (row : Row) : List Char → Row × List Char
  | '-' :: rest =>
    have := m.length_skip_le rest
    setHyphens m (row.add .leaf) (m.skip rest)
  | cs => (row, cs)
termination_by cs => cs.length

/-- The start of a set, after its opening bracket. A closing bracket at the start is meant as
such. -/
def setStart (m : Mode) (cs : List Char) : Option (Row × List Char) := do
  let cs ← match m.skip cs with
    | '^' :: rest => if m.unicode then some (m.skip rest) else none
    | cs => some cs
  match setHyphens m {} cs with
  | (⟨0, _⟩, ']' :: rest) => some (Row.add {} .leaf, m.skip rest)
  | start => some start

/-- What has been read of a set: the lists before the last operator, and the list after it. -/
def setOutline (before : Option Outline) (row : Row) : Outline :=
  match before with
  | none => row.outline
  | some o => (o.max row.outline).raise

/-- The rest of a set up to its closing bracket. -/
def setRest (m : Mode) : Nat → Option Outline → Row → List Char → Option (Outline × List Char)
  | 0, _, _, _ => none
  | fuel + 1, before, row, cs =>
    match m.skip cs with
    | [] => none
    | ']' :: rest => some (setOutline before row, rest)
    | '[' :: rest =>
      match namedSet? rest with
      | some (complement, rest) =>
        if complement && !m.unicode then none else setRest m fuel before (row.add .leaf) rest
      | none => do
        let (inner, rest) ← setStart m rest
        let (o, rest) ← setRest m fuel none inner rest
        setRest m fuel before (row.add o.raise) rest
    | '&' :: '&' :: rest => setRest m fuel (some (setOutline before row)) {} rest
    | '-' :: '-' :: rest => setRest m fuel (some (setOutline before row)) {} rest
    | '~' :: '~' :: rest => setRest m fuel (some (setOutline before row)) {} rest
    | cs => do setRest m fuel before (row.add .leaf) (← setRange m cs)

/-- **A set**, after its opening bracket. -/
def set (m : Mode) (cs : List Char) : Option (Outline × List Char) := do
  let (row, rest) ← setStart m cs
  let (o, rest) ← setRest m (rest.length + 1) none row rest
  pure (o.raise, rest)

end SourceCoding.Pattern
