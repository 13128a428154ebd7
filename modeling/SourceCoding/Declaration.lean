import SourceCoding.Bytes

/-!
# Encoding declarations

A Python source declares its encoding in a comment on its first or second line (PEP-0263). The
recogniser accepts a line that starts with `#`, holds `coding:` or `coding=`, and later on a codec
name of the shape "word byte, hyphen, digit". It works on raw bytes, so a source in any encoding
can be inspected.

A declaration is inserted at the front of a content. A content that starts with an interpreter
directive `#!` keeps it on line 1, and the declaration follows on line 2; a directive without a
line feed gets one.

## Main definitions

* `Declaration.afterKeyword`: what follows the first `coding:` or `coding=`
* `Declaration.holdsCodec`: a word byte, a hyphen and a digit stand side by side
* `isDeclaration`: a line declares an encoding
* `isCompliant`: a content declares its encoding on line 1 or 2
* `hasDirective`: a content starts with `#!`
* `insertDeclaration`: the content with the declaration on line 1 or 2
-/

namespace SourceCoding

namespace Declaration

/-- The word that introduces the name of the encoding. -/
def keyword : Bytes := Bytes.ofString "coding"

/-- A byte that may follow the keyword: `=` or `:`. -/
def isSeparator (b : UInt8) : Bool := b == 0x3D || b == 0x3A

/-- What follows the keyword and a separator at the start of a byte string. -/
def dropKeyword (bs : Bytes) : Option Bytes :=
  match keyword.isPrefixOf bs, bs.drop keyword.length with
  | true, b :: rest => if isSeparator b then some rest else none
  | _, _ => none

/-- **What follows the first keyword** with its separator. The first one leaves the longest rest,
so a codec name after any of them stands after this one. -/
def afterKeyword : Bytes → Option Bytes
  | [] => none
  | b :: rest => (dropKeyword (b :: rest)).or (afterKeyword rest)

/-- Somewhere a word byte, a hyphen and a digit stand side by side. -/
def holdsCodec : Bytes → Bool
  | w :: h :: d :: rest =>
    (Bytes.isWord w && h == Bytes.hyphen && Bytes.isDigit d) || holdsCodec (h :: d :: rest)
  | _ => false

end Declaration

/-- **A line declares an encoding.** Of a byte string with line feeds only the first line counts. -/
def isDeclaration (line : Bytes) : Bool :=
  match line.firstLine with
  | 0x23 :: comment => (Declaration.afterKeyword comment).any Declaration.holdsCodec
  | _ => false

/-- **A content declares its encoding** on its first or second line; what follows never counts. -/
def isCompliant (content : Bytes) : Bool :=
  isDeclaration content || content.afterFirstLine.any isDeclaration

theorem isDeclaration_firstLine (line : Bytes) :
    isDeclaration line.firstLine = isDeclaration line := by
  simp [isDeclaration]

/-! ## Inserting a declaration -/

/-- A content that starts with `#!` names its interpreter on line 1. -/
def hasDirective (content : Bytes) : Bool := [0x23, 0x21].isPrefixOf content

theorem hasDirective_of_part {torn content : Bytes} (h : torn <+: content)
    (hd : hasDirective torn) : hasDirective content := by
  rw [hasDirective, List.isPrefixOf_iff_prefix] at hd ⊢
  exact hd.trans h

/-- **The content with the declaration inserted**, after the interpreter directive if there is
one. -/
def insertDeclaration (declaration content : Bytes) : Bytes :=
  if hasDirective content then
    content.firstLine ++ Bytes.lineFeed :: (declaration ++ content.afterFirstLine.getD [])
  else
    declaration ++ content

theorem insertDeclaration_of_directive {declaration content : Bytes} (h : hasDirective content) :
    insertDeclaration declaration content =
      content.firstLine ++ Bytes.lineFeed :: (declaration ++ content.afterFirstLine.getD []) := by
  simp [insertDeclaration, h]

theorem insertDeclaration_of_not_directive {declaration content : Bytes}
    (h : hasDirective content = false) :
    insertDeclaration declaration content = declaration ++ content := by
  simp [insertDeclaration, h]

end SourceCoding
