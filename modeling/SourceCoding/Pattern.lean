import SourceCoding.Pattern.Token

/-!
# Patterns

A pattern describes the texts that a field of a log record may hold. It is a regular expression
with groups, alternatives, repetitions and sets of characters. Patterns are only checked here, as
no record is ever compared with one.

## Main definitions

* `Level`: a group as far as it has been read
* `Draft`: a pattern as far as it has been read
* `read?`: a pattern
* `isNumber`: a text that is no pattern but a number
-/

namespace SourceCoding.Pattern

/-- **A group as far as it has been read**, or what stands outside all groups. -/
structure Level where
  /-- The alternatives before the present one. -/
  branches : Row := {}
  /-- The items of the present alternative. -/
  items : Row := {}
  /-- The last of them, if it can be repeated. -/
  last : Option Outline := none
  deriving DecidableEq, Repr

namespace Level

/-- One more item. -/
def push (l : Level) (o : Outline) : Level := { l with items := l.items.add o, last := some o }

/-- One more item that cannot be repeated. -/
def pushFlags (l : Level) : Level := { l with items := l.items.add .leaf, last := none }

/-- The present alternative ended. -/
def branch (l : Level) : Level := { branches := l.branches.add l.items.outline }

/-- The last item repeated, if it can be. The repetition takes the place of the item, which it
encloses. -/
def repeatLast (l : Level) : Option Level :=
  l.last.map fun o => { l with
    items := { l.items with parts := l.items.parts.max o.raise }, last := some o.raise }

/-- All that has been read as one part. -/
def outline (l : Level) : Outline := l.branch.branches.outline

end Level

/-- **A pattern as far as it has been read.** -/
structure Draft where
  /-- The innermost open group. -/
  inner : Level := {}
  /-- The groups around it, from the inside to the outside. -/
  outer : List Level := []
  /-- The names of groups so far. -/
  names : List String := []
  deriving DecidableEq, Repr

namespace Draft

/-- One more token. -/
def step (d : Draft) : Token → Option Draft
  | .opening none => some { d with inner := {}, outer := d.inner :: d.outer }
  | .opening (some name) =>
    if name ∈ d.names then none
    else some ⟨{}, d.inner :: d.outer, name :: d.names⟩
  | .closing => match d.outer with
    | [] => none
    | l :: outer => some { d with inner := l.push d.inner.outline.raise, outer }
  | .bar => some { d with inner := d.inner.branch }
  | .repetition => d.inner.repeatLast.map fun inner => { d with inner }
  | .flags => some { d with inner := d.inner.pushFlags }
  | .item o => some { d with inner := d.inner.push o }

/-- The pattern, if no group is open. -/
def finish? (d : Draft) : Option Outline :=
  match d.outer with
  | [] => some d.inner.outline
  | _ :: _ => none

end Draft

/-- How deeply the parts of a pattern may be nested. -/
def heightLimit : Nat := 250

/-- **A pattern**, or nothing where a text is none. -/
def read? (cs : List Char) : Option Outline := do
  let o ← (← (← tokens? cs).foldlM Draft.step {}).finish?
  guard (o.height ≤ heightLimit)
  pure o

/-- A number, which is compared as one and need not be a pattern. -/
def isNumber (cs : List Char) : Bool :=
  let unsigned := match cs with
    | c :: rest => if c = '+' ∨ c = '-' then rest else cs
    | [] => []
  (Decimal.read? unsigned).isSome ||
    String.ofList (unsigned.map Char.toLower) ∈ ["inf", "infinity", "nan"]

end SourceCoding.Pattern
