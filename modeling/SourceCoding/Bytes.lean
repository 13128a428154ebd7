/-!
# Byte strings

File contents and paths are byte strings: nothing promises that they are text. This module holds
the byte classes the recogniser speaks of and the cut of a byte string at its first line feed.

## Main definitions

* `Bytes`: a byte string
* `Bytes.ofString`: the UTF-8 form of a text
* `Bytes.firstLine`, `Bytes.afterFirstLine`: a byte string up to its first line feed, and beyond

## Main results

* `Bytes.ofString_append`: the UTF-8 form of a concatenation
* `Bytes.firstLine_append`: nothing is lost at the cut
-/

namespace SourceCoding

/-- **A byte string**, not necessarily text. -/
abbrev Bytes := List UInt8

namespace Bytes

/-- The line feed, the only byte that ends a line. -/
def lineFeed : UInt8 := 0x0A

/-- The byte between the segments of a path. -/
def slash : UInt8 := 0x2F

/-- The hyphen. -/
def hyphen : UInt8 := 0x2D

/-- An ASCII digit. -/
def isDigit (b : UInt8) : Bool := 0x30 ≤ b && b ≤ 0x39

/-- An ASCII letter, digit or underscore. Bytes beyond ASCII belong to no word. -/
def isWord (b : UInt8) : Bool :=
  isDigit b || (0x41 ≤ b && b ≤ 0x5A) || (0x61 ≤ b && b ≤ 0x7A) || b == 0x5F

/-- The UTF-8 form of a text. -/
def ofString (s : String) : Bytes := s.toList.flatMap String.utf8EncodeChar

@[simp] theorem ofString_append (s t : String) : ofString (s ++ t) = ofString s ++ ofString t := by
  simp [ofString]

/-! ## The first line -/

/-- What stands before the first line feed; all of a byte string without one. -/
def firstLine (bs : Bytes) : Bytes := bs.takeWhile (· ≠ lineFeed)

/-- What stands after the first line feed, if there is one. -/
def afterFirstLine : Bytes → Option Bytes
  | [] => none
  | b :: rest => if b = lineFeed then some rest else afterFirstLine rest

theorem lineFeed_not_mem_firstLine (bs : Bytes) : lineFeed ∉ firstLine bs := by
  induction bs with
  | nil => simp [firstLine]
  | cons b rest ih =>
    by_cases h : b = lineFeed
    · simp [firstLine, h]
    · simpa [firstLine, h, Ne.symm h] using ih

@[simp] theorem firstLine_firstLine (bs : Bytes) : firstLine (firstLine bs) = firstLine bs := by
  induction bs with
  | nil => rfl
  | cons b rest ih =>
    by_cases h : b = lineFeed
    · simp [firstLine, h]
    · simpa [firstLine, h] using ih

/-- A byte string with a line feed is its first line, the line feed and the rest. -/
theorem firstLine_append {bs rest : Bytes} (h : afterFirstLine bs = some rest) :
    bs = firstLine bs ++ lineFeed :: rest := by
  induction bs with
  | nil => simp [afterFirstLine] at h
  | cons b tail ih =>
    by_cases hb : b = lineFeed
    · simp_all [firstLine, afterFirstLine]
    · simp only [afterFirstLine, hb, if_false] at h
      simpa [firstLine, hb] using ih h

/-- A byte string without a line feed is its own first line. -/
theorem firstLine_eq_self {bs : Bytes} (h : afterFirstLine bs = none) : firstLine bs = bs := by
  induction bs with
  | nil => rfl
  | cons b tail ih =>
    by_cases hb : b = lineFeed
    · simp [afterFirstLine, hb] at h
    · simp only [afterFirstLine, hb, if_false] at h
      simpa [firstLine, hb] using ih h

end Bytes

end SourceCoding
