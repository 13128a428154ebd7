import SourceCoding.Text.Quoted

/-!
# Cutting a text

A piece of a text is given by two offsets in bytes. An offset may fall inside a character, and then
there is no such piece.

## Main definitions

* `SplitCharacter`: an offset that falls inside a character
* `cut`: a text cut at an offset
* `slice`, `sliceFrom`: the piece between two offsets, and the one from an offset on
-/

namespace SourceCoding

/-- Which end of a piece an offset stands for. -/
inductive PieceEnd where
  /-- Its start. -/
  | start
  /-- Its end. -/
  | stop
  deriving DecidableEq, Repr

/-- The end as messages name it. -/
def PieceEnd.label : PieceEnd → String
  | .start => "start"
  | .stop => "end"

/-- **An offset that falls inside a character.** -/
structure SplitCharacter where
  /-- What the offset stands for. -/
  side : PieceEnd
  /-- The offset. -/
  offset : Nat
  /-- The character. -/
  character : Char
  /-- The offset of its first byte. -/
  first : Nat
  deriving DecidableEq, Repr

/-- The text that says so. -/
def SplitCharacter.message (s : SplitCharacter) : String :=
  s.side.label ++ " byte index " ++ toString s.offset ++ " is not a char boundary; " ++
    "it is inside '" ++ Quoted.escape s.character ++ "' (bytes " ++ toString s.first ++ ".." ++
    toString (s.first + s.character.utf8Size) ++ " of string)"

/-- **A text cut at an offset** in bytes, into what stands before it and what stands after it. The
text itself starts at `first`. -/
def cut (side : PieceEnd) (offset first : Nat) :
    List Char → Except SplitCharacter (List Char × List Char)
  | [] => .ok ([], [])
  | c :: rest =>
    if offset ≤ first then .ok ([], c :: rest)
    else if offset < first + c.utf8Size then .error ⟨side, offset, c, first⟩
    else (cut side offset (first + c.utf8Size) rest).map fun (before, after) => (c :: before, after)

/-- What stands in a text from an offset on. -/
def sliceFrom (text : List Char) (start : Nat) : Except SplitCharacter (List Char) :=
  (cut .start start 0 text).map Prod.snd

/-- **What stands in a text between two offsets**; of two that split a character the first one is
told. -/
def slice (text : List Char) (start stop : Nat) : Except SplitCharacter (List Char) := do
  let tail ← sliceFrom text start
  (cut .stop stop start tail).map Prod.fst

end SourceCoding
