import SourceCoding.Proofs.Splice

/-!
# The language of encoding names

A name is checked by building the whole line that it makes and running the recogniser over it. What
decides is in the name alone: the first keyword of the line is the one that the line has anyway, and
the blanks on both sides of the name keep a codec name from reaching over its ends. So the names
without issues form a language that is described without the line.

## Main definitions

* `whiteSpace`: the code points with the Unicode property `White_Space`
* `CodingName`: the language of names

## Main results

* `isBlank_iff_mem`: white space is told by a table
* `Declaration.holdsCodec_append_blank`: a codec name stands on one side of a blank
* `isDeclaration_declarationText`: what decides about the line is in the name
* `codingName_exact`: the names without issues are those of the language
-/

namespace SourceCoding

/-! ## White space -/

/-- **The code points with the Unicode property `White_Space`.** -/
def whiteSpace : List Nat :=
  [0x09, 0x0A, 0x0B, 0x0C, 0x0D, 0x20, 0x85, 0xA0, 0x1680, 0x2000, 0x2001, 0x2002, 0x2003, 0x2004,
    0x2005, 0x2006, 0x2007, 0x2008, 0x2009, 0x200A, 0x2028, 0x2029, 0x202F, 0x205F, 0x3000]

/-- **White space is told by a table.** -/
theorem isBlank_iff_mem {c : Char} : isBlank c = true ↔ c.toNat ∈ whiteSpace := by
  simp only [isBlank, whiteSpace, Bool.or_eq_true, Bool.and_eq_true, decide_eq_true_eq, beq_iff_eq,
    List.mem_cons, List.not_mem_nil, or_false]
  omega

/-! ## The name in its line -/

namespace Declaration

/-- **A codec name stands on one side of a blank**, since it has none in it. -/
theorem holdsCodec_append_blank (a b : Bytes) :
    holdsCodec (a ++ 0x20 :: b) = (holdsCodec a || holdsCodec b) := by
  -- The first two bytes before the blank, and the first two after it, cannot begin a codec name
  -- that reaches over it.
  have hafter : holdsCodec (0x20 :: b) = holdsCodec b := by
    rcases b with _ | ⟨h, _ | ⟨d, rest⟩⟩
    · rfl
    · rfl
    · rw [holdsCodec, show Bytes.isWord 0x20 = false from rfl]
      simp
  have hlast : ∀ x, holdsCodec (x :: 0x20 :: b) = holdsCodec b := by
    intro x
    rw [← hafter]
    rcases b with _ | ⟨d, rest⟩
    · rfl
    · rw [holdsCodec, show ((0x20 : UInt8) == Bytes.hyphen) = false from rfl]
      simp
  fun_induction holdsCodec a with
  | case1 w h d rest ih =>
    rw [List.cons_append, List.cons_append, List.cons_append, holdsCodec, Bool.or_assoc, ← ih]
    rfl
  | case2 a hshort =>
    rcases a with _ | ⟨x, _ | ⟨y, _ | ⟨z, rest⟩⟩⟩
    · exact hafter
    · exact hlast x
    · rw [List.cons_append, List.cons_append, List.nil_append, holdsCodec,
        show Bytes.isDigit 0x20 = false from rfl, hlast y]
      simp
    · exact absurd rfl (hshort x y z rest)

end Declaration

/-- **What decides about the line is in the name**, if the name has no line feed. -/
theorem isDeclaration_declarationText {name : String}
    (h : Bytes.lineFeed ∉ Bytes.ofString name) :
    isDeclaration (Bytes.ofString (declarationText name)) =
      Declaration.holdsCodec (Bytes.ofString name) := by
  have hline : Bytes.ofString (declarationText name) =
      0x23 :: (Bytes.ofString " -*- coding:" ++
        ([] ++ 0x20 :: (Bytes.ofString name ++ 0x20 :: Bytes.ofString "-*-"))) := by
    rw [declarationText, Bytes.ofString_append, Bytes.ofString_append, List.append_assoc]
    rfl
  have hfeed : Bytes.lineFeed ∉ Bytes.ofString (declarationText name) := by
    rw [hline]
    simp only [List.mem_cons, List.mem_append, List.not_mem_nil, not_or]
    exact ⟨by decide, by decide, not_false, by decide, h, by decide, by decide⟩
  have hfirst := Bytes.firstLine_eq_self (Bytes.afterFirstLine_of_not_mem hfeed)
  have hkeyword : ∀ rest : Bytes,
      Declaration.afterKeyword (Bytes.ofString " -*- coding:" ++ rest) = some rest := fun _ => rfl
  rw [isDeclaration, hfirst, hline]
  show (Declaration.afterKeyword (Bytes.ofString " -*- coding:" ++ _)).any _ = _
  rw [hkeyword, Option.any_some, Declaration.holdsCodec_append_blank,
    Declaration.holdsCodec_append_blank]
  simp [show Declaration.holdsCodec [] = false from rfl,
    show Declaration.holdsCodec (Bytes.ofString "-*-") = false from rfl]

/-! ## The language -/

/-- **A name of an encoding** as a declaration can have it. -/
structure CodingName (name : String) : Prop where
  /-- It is not empty. -/
  ne_empty : name ≠ ""
  /-- No character of it is white space. -/
  noSpace : ∀ c ∈ name.toList, c.toNat ∉ whiteSpace
  /-- The marker that ends a declaration is no part of it. -/
  noMarker : ¬ ['-', '*', '-'] <:+: name.toList
  /-- In its bytes a letter, digit or underscore of ASCII, a hyphen and a digit of ASCII stand side
  by side. -/
  codec : ∃ before word digit rest,
    Bytes.ofString name = before ++ word :: Bytes.hyphen :: digit :: rest ∧
      Bytes.isWord word ∧ Bytes.isDigit digit

theorem codingIssues_eq_nil {name : String} : codingIssues name = [] ↔
    name ≠ "" ∧ name.toList.any isBlank = false ∧ hasPart marker name.toList = false ∧
      isDeclaration (Bytes.ofString (declarationText name)) = true := by
  unfold codingIssues
  rw [ne_eq, ← String.toList_eq_nil_iff]
  split_ifs <;> simp_all

/-- **The names without issues are those of the language**, and with such a name the inserted line
has just one line feed, at its end. -/
theorem codingName_exact (c : Config) :
    (codingIssues c.coding = [] ↔ CodingName c.coding) ∧
    (codingIssues c.coding = [] →
      c.declaration.count Bytes.lineFeed = 1 ∧
        c.declaration.getLast? = some Bytes.lineFeed) := by
  constructor
  · -- A line feed would be white space, so the name decides about the line in either case.
    have hspace : c.coding.toList.any isBlank = false ↔
        ∀ x ∈ c.coding.toList, x.toNat ∉ whiteSpace := by
      simp only [List.any_eq_false, isBlank_iff_mem]
    have hfeed : (∀ x ∈ c.coding.toList, x.toNat ∉ whiteSpace) →
        Bytes.lineFeed ∉ Bytes.ofString c.coding := by
      intro h hm
      obtain ⟨x, hx, hn⟩ := Bytes.exists_of_mem_ofString hm (by decide)
      exact h x hx (by rw [hn]; decide)
    have hmarker : hasPart marker c.coding.toList = false ↔
        ¬ ['-', '*', '-'] <:+: c.coding.toList := by
      rw [← Bool.not_eq_true, hasPart_iff, marker]
    rw [codingIssues_eq_nil, hspace, hmarker]
    constructor
    · rintro ⟨hne, hs, hm, hline⟩
      rw [isDeclaration_declarationText (hfeed hs)] at hline
      exact ⟨hne, hs, hm, Declaration.holdsCodec_iff.1 hline⟩
    · rintro ⟨hne, hs, hm, hcodec⟩
      refine ⟨hne, hs, hm, ?_⟩
      rw [isDeclaration_declarationText (hfeed hs)]
      exact Declaration.holdsCodec_iff.2 hcodec
  · intro h
    have htext := lineFeed_not_mem_declarationText h
    rw [Config.declaration_eq, List.count_append, List.count_eq_zero_of_not_mem htext]
    simp

/-- A name with a keyword of its own, in which a letter beyond ASCII stands before a hyphen and a
digit: it is in the language by the underscore further on, and would not be without it. -/
theorem codingName_exact_beyond_ascii :
    let c : Config := { coding := "#coding=é-1_-2" }
    codingIssues c.coding = [] ∧ CodingName c.coding ∧
      c.declaration.count Bytes.lineFeed = 1 ∧
      c.declaration.getLast? = some Bytes.lineFeed ∧
      ¬ CodingName "#coding=é-1" := by
  intro c
  obtain ⟨hiff, hline⟩ := codingName_exact c
  have hnone : codingIssues c.coding = [] := by decide +kernel
  refine ⟨hnone, hiff.1 hnone, (hline hnone).1, (hline hnone).2, fun h => ?_⟩
  have hissue : codingIssues "#coding=é-1" ≠ [] := by decide +kernel
  exact hissue ((codingName_exact { coding := "#coding=é-1" }).1.2 h)

end SourceCoding
