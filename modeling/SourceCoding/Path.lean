import SourceCoding.Text.Utf8

/-!
# Paths

A path is a byte string in which slashes separate segments. Paths are kept as they were given and
are never normalised: `a/../b`, `a//b` and `a/./b` are shown as such and only their resolution
tells what they name.

## Main definitions

* `Path`: a path
* `Path.join`, `Path.child`: a path continued by another path, or by one name
* `Path.fileName?`: the last segment, if it is a name
* `Path.steps`: what resolution does with a path

## Main results

* `Path.segmentsOf_append_slash`: a slash ends one segment and starts the next
-/

namespace SourceCoding

/-- **A path**, as it was given. -/
structure Path where
  /-- The bytes of the path, slashes included. -/
  bytes : Bytes
  deriving DecidableEq, Repr, Inhabited

/-- The segment that stays in a directory. -/
def dot : Bytes := [0x2E]

/-- The segment that goes to the parent. -/
def dotDot : Bytes := [0x2E, 0x2E]

namespace Path

/-- The path of a text. -/
def ofString (s : String) : Path := ⟨Bytes.ofString s⟩

/-- A path that starts at the root of the tree. -/
def isAbsolute (p : Path) : Bool := p.bytes.head? == some Bytes.slash

/-- The path as messages show it. -/
def display (p : Path) : String := Utf8.display p.bytes

/-- The path as text, if it is text. -/
def text? (p : Path) : Option String := Utf8.decode? p.bytes

/-- The path with bytes appended to its last segment. -/
def append (p : Path) (suffix : Bytes) : Path := ⟨p.bytes ++ suffix⟩

@[simp] theorem bytes_append (p : Path) (suffix : Bytes) :
    (p.append suffix).bytes = p.bytes ++ suffix := rfl

/-- The path continued by further bytes, after a slash unless one is there or nothing precedes. -/
def child (p : Path) (rest : Bytes) : Path :=
  if p.bytes.getLast?.any (· ≠ Bytes.slash) then ⟨p.bytes ++ Bytes.slash :: rest⟩
  else ⟨p.bytes ++ rest⟩

/-- **The path continued by another path**; an absolute one stands alone. -/
def join (p q : Path) : Path := if q.isAbsolute then q else p.child q.bytes

/-- The segments between the slashes, empty ones included. -/
def segmentsOf : Bytes → List Bytes
  | [] => [[]]
  | b :: rest =>
    if b = Bytes.slash then [] :: segmentsOf rest
    else match segmentsOf rest with
      | [] => [[b]]
      | s :: more => (b :: s) :: more

theorem segmentsOf_ne_nil (bs : Bytes) : segmentsOf bs ≠ [] := by
  cases bs with
  | nil => simp [segmentsOf]
  | cons b rest =>
    rw [segmentsOf]
    split
    · simp
    · split <;> simp

/-- A slash ends one segment and starts the next. -/
theorem segmentsOf_append_slash (bs rest : Bytes) :
    segmentsOf (bs ++ Bytes.slash :: rest) = segmentsOf bs ++ segmentsOf rest := by
  induction bs with
  | nil => simp [segmentsOf]
  | cons b tail ih =>
    by_cases h : b = Bytes.slash
    · simp [segmentsOf, h, ih]
    · simp only [List.cons_append, segmentsOf, h, if_false, ih]
      cases hs : segmentsOf tail with
      | nil => exact absurd hs (segmentsOf_ne_nil tail)
      | cons s more => simp

/-- Bytes without a slash are one segment. -/
theorem segmentsOf_of_not_mem {bs : Bytes} (h : Bytes.slash ∉ bs) : segmentsOf bs = [bs] := by
  induction bs with
  | nil => rfl
  | cons b tail ih =>
    simp only [List.mem_cons, not_or] at h
    simp [segmentsOf, Ne.symm h.1, ih h.2]

/-- The segments of a path that matter: neither empty nor a dot. -/
def properSegments (p : Path) : List Bytes :=
  (segmentsOf p.bytes).filter fun s => s ≠ [] && s ≠ dot

/-- **The last segment, if it is a name.** Trailing slashes and dots are passed over; a path that
ends by going to a parent, or has no segments, ends in no name. -/
def fileName? (p : Path) : Option Bytes :=
  match p.properSegments.getLast? with
  | some s => if s = dotDot then none else some s
  | none => none

/-! ## Steps -/

/-- One step of the resolution of a path. -/
inductive Step where
  /-- Stay in the directory. -/
  | stay
  /-- Go to the parent directory. -/
  | up
  /-- Go to the entry of that name. -/
  | name (n : Bytes)
  /-- The path ends in a slash: what came before must be a directory. -/
  | slash
  deriving DecidableEq, Repr

/-- The step of a segment; an empty segment is none. -/
def Step.ofSegment? (s : Bytes) : Option Step :=
  if s = [] then none
  else if s = dot then some .stay
  else if s = dotDot then some .up
  else some (.name s)

/-- **The steps of a path**, first to last. -/
def steps (p : Path) : List Step :=
  (segmentsOf p.bytes).filterMap Step.ofSegment? ++
    if p.bytes.getLast? = some Bytes.slash then [.slash] else []

end Path

end SourceCoding
