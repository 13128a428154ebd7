import SourceCoding.Pattern.Bracket
import SourceCoding.Text.Character

/-!
# Tokens of patterns

A pattern is cut into tokens from left to right. A group can change the mode up to its end; flags by
themselves change it up to the end of the group they stand in.

## Main definitions

* `Token`: one token
* `groupStart`: the start of a group
* `tokens?`: the tokens of a pattern
-/

namespace SourceCoding.Pattern

/-- **A token.** -/
inductive Token where
  /-- The start of a group, perhaps with a name. -/
  | opening (name : Option String)
  /-- The end of a group. -/
  | closing
  /-- The sign between alternatives. -/
  | bar
  /-- A sign of repetition. -/
  | repetition
  /-- Flags by themselves. -/
  | flags
  /-- Something that matches text or a position. -/
  | item (outline : Outline)
  deriving DecidableEq, Repr

/-! ## Groups -/

/-- A name of a group may start with the character. -/
def startsGroupName (c : Char) : Bool := c = '_' || isLetter c

/-- A name of a group may contain the character. -/
def isGroupNameChar (c : Char) : Bool :=
  c = '_' || c = '.' || c = '[' || c = ']' || isLetterOrNumeral c

/-- The name of a group and the sign that ends it. -/
def groupName (cs : List Char) : Option (String × List Char) :=
  match cs.takeWhile (· ≠ '>'), cs.dropWhile (· ≠ '>') with
  | first :: more, _ :: rest =>
    if startsGroupName first && more.all isGroupNameChar then
      some (String.ofList (first :: more), rest)
    else none
  | _, _ => none

/-- Flags are known, none is given twice, and a minus sign has flags after it. -/
def areFlags (signs : List Char) : Bool :=
  signs.all (· ∈ ['i', 'm', 's', 'U', 'u', 'R', 'x', '-']) && decide signs.Nodup &&
    signs.getLast? ≠ some '-'

/-- What a flag is set to; those after a minus sign are turned off. -/
def flag (signs : List Char) (c : Char) (current : Bool) : Bool :=
  if c ∈ signs.takeWhile (· ≠ '-') then true
  else if c ∈ signs then false
  else current

/-- The mode that flags lead to. -/
def Mode.change (m : Mode) (signs : List Char) : Mode :=
  ⟨flag signs 'x' m.spaced, flag signs 'u' m.unicode⟩

/-- Flags after a question mark, by themselves or of a group. -/
def groupFlags (m : Mode) (cs : List Char) : Option (Token × Mode × List Char) :=
  let isEnd := fun c : Char => c = ':' ∨ c = ')'
  let signs := cs.takeWhile (¬ isEnd ·)
  if areFlags signs then
    match cs.dropWhile (¬ isEnd ·) with
    | ':' :: rest => some (.opening none, m.change signs, rest)
    | ')' :: rest => if signs = [] then none else some (.flags, m.change signs, rest)
    | _ => none
  else none

/-- **The start of a group**, after its opening parenthesis, and the mode from there on. Looking
ahead or behind is refused. -/
def groupStart (m : Mode) (cs : List Char) : Option (Token × Mode × List Char) :=
  match m.skip cs with
  | '?' :: 'P' :: '<' :: rest => (groupName rest).map fun (name, rest) => (.opening name, m, rest)
  | '?' :: '<' :: rest => (groupName rest).map fun (name, rest) => (.opening name, m, rest)
  | '?' :: rest => groupFlags m rest
  | rest => some (.opening none, m, rest)

/-! ## Tokens -/

/-- A character, an escape or a sign that stands for text or a position. -/
def item (m : Mode) (cs : List Char) : Option (Outline × List Char) :=
  match cs with
  | [] => none
  | '\\' :: rest => (escape m rest).map fun (a, rest) =>
    (⟨0, m.unicode && a == .wordPosition⟩, rest)
  | '.' :: rest => if m.unicode then some (.leaf, rest) else none
  | _ :: rest => some (.leaf, rest)

/-- The sign that makes a repetition match as little as possible passed over. -/
def skipLazy : List Char → List Char
  | '?' :: rest => rest
  | rest => rest

/-- The tokens of the rest of a pattern; `saved` holds the modes around the open groups. A count of
repetitions cannot occur, as a closing brace ends the pattern. -/
def tokensFrom : Nat → Mode → List Mode → List Char → Option (List Token)
  | 0, _, _, _ => none
  | fuel + 1, m, saved, cs =>
    match m.skip cs with
    | [] => some []
    | '(' :: rest => do
      let (token, inner, rest) ← groupStart m rest
      let saved := if token = .flags then saved else m :: saved
      pure (token :: (← tokensFrom fuel inner saved rest))
    | ')' :: rest => match saved with
      | [] => none
      | outer :: saved => do pure (.closing :: (← tokensFrom fuel outer saved rest))
    | '|' :: rest => do pure (.bar :: (← tokensFrom fuel m saved rest))
    | '[' :: rest => do
      let (o, rest) ← set m rest
      pure (.item o :: (← tokensFrom fuel m saved rest))
    | '\x7b' :: _ => none
    | c :: rest =>
      if c ∈ ['?', '*', '+'] then do
        pure (.repetition :: (← tokensFrom fuel m saved (skipLazy rest)))
      else do
        let (o, rest) ← item m (c :: rest)
        pure (.item o :: (← tokensFrom fuel m saved rest))

/-- **The tokens of a pattern.** -/
def tokens? (cs : List Char) : Option (List Token) := tokensFrom (cs.length + 1) {} [] cs

end SourceCoding.Pattern
