import SourceCoding.Proofs.Grammar

/-!
# Insertion undone

An inserted declaration is one line more, and nothing is lost: without it the content is as it was,
but for the line feed that an interpreter directive gets when it has none. Where the declaration
stands can be read off what was made of the content, since it does not start like a directive. So
two contents become the same only if this line feed is all they differ in.

## Main definitions

* `linesAbove`, `linesBelow`: the parts of a content on both sides of the declaration
* `isLoneDirective`, `completed`: an interpreter directive without a line feed, and a content with
  the line feed it gets
* `Bytes.cutOut`: a byte string without some of its bytes

## Main results

* `cutOut_insertDeclaration`: without the declaration the completed content is left
* `insertDeclaration_eq_iff`: which contents become the same
* `headLines_insertDeclaration`: the first two lines after an insertion
* `insertion_undone`: an insertion in full
-/

namespace SourceCoding

/-- A byte string without as many bytes from a place on. -/
def Bytes.cutOut (place count : Nat) (bs : Bytes) : Bytes :=
  bs.take place ++ bs.drop (place + count)

theorem Bytes.cutOut_append (a b rest : Bytes) :
    cutOut a.length b.length (a ++ (b ++ rest)) = a ++ rest := by
  rw [cutOut, List.take_left, ← List.append_assoc, ← List.length_append, List.drop_left]

/-! ## The parts of a content -/

/-- What stands above the declaration: the interpreter directive with its line feed, or nothing. -/
def linesAbove (content : Bytes) : Bytes :=
  if hasDirective content then content.firstLine ++ [Bytes.lineFeed] else []

/-- What stands below the declaration. -/
def linesBelow (content : Bytes) : Bytes :=
  if hasDirective content then content.afterFirstLine.getD [] else content

/-- An interpreter directive without a line feed. -/
def isLoneDirective (content : Bytes) : Bool :=
  hasDirective content && !content.contains Bytes.lineFeed

/-- A content with the line feed that an interpreter directive needs. -/
def completed (content : Bytes) : Bytes :=
  if isLoneDirective content then content ++ [Bytes.lineFeed] else content

variable {d content content' : Bytes} {c : Config}

theorem insertDeclaration_eq_append (d content : Bytes) :
    insertDeclaration d content = linesAbove content ++ (d ++ linesBelow content) := by
  cases h : hasDirective content <;> simp [insertDeclaration, linesAbove, linesBelow, h]

theorem isLoneDirective_iff :
    isLoneDirective content = true ↔ hasDirective content ∧ Bytes.lineFeed ∉ content := by
  simp [isLoneDirective]

/-- **The parts are the completed content.** -/
theorem linesAbove_append_linesBelow (content : Bytes) :
    linesAbove content ++ linesBelow content = completed content := by
  cases h : hasDirective content with
  | false => simp [linesAbove, linesBelow, completed, isLoneDirective, h]
  | true =>
    rw [linesAbove, linesBelow, if_pos h, if_pos h, List.append_assoc, List.singleton_append]
    cases ha : content.afterFirstLine with
    | none =>
      have hlone : isLoneDirective content := by
        refine isLoneDirective_iff.2 ⟨h, ?_⟩
        rw [← Bytes.firstLine_eq_self ha]
        exact Bytes.lineFeed_not_mem_firstLine content
      rw [completed, if_pos hlone, Bytes.firstLine_eq_self ha, Option.getD_none]
    | some rest =>
      have happ := Bytes.firstLine_append ha
      have hlone : ¬ isLoneDirective content := fun hl => by
        have hmem := (isLoneDirective_iff.1 hl).2
        rw [happ] at hmem
        simp at hmem
      rw [completed, if_neg hlone, Option.getD_some, ← happ]

/-- **Without the declaration the completed content is left.** -/
theorem cutOut_insertDeclaration (d content : Bytes) :
    Bytes.cutOut (linesAbove content).length d.length (insertDeclaration d content) =
      completed content := by
  rw [insertDeclaration_eq_append, Bytes.cutOut_append, linesAbove_append_linesBelow]

/-! ## Contents that become the same -/

/-- The interpreter directive stays the first line. -/
theorem firstLine_insertDeclaration (h : hasDirective content) (d : Bytes) :
    (insertDeclaration d content).firstLine = content.firstLine := by
  rw [insertDeclaration_of_directive h,
    Bytes.firstLine_append_of_not_mem (Bytes.lineFeed_not_mem_firstLine content)]
  simp [Bytes.firstLine]

/-- **A declaration is not taken for a directive**: there is one after the insertion just if there
was one before. -/
theorem hasDirective_insertDeclaration (c : Config) (content : Bytes) :
    hasDirective (insertDeclaration c.declaration content) = hasDirective content := by
  cases h : hasDirective content with
  | true =>
    have hline : hasDirective content.firstLine := by
      obtain ⟨rest, rfl⟩ := List.isPrefixOf_iff_prefix.1 h
      simp [hasDirective, Bytes.firstLine, Bytes.lineFeed]
    rw [insertDeclaration_of_directive h]
    exact hasDirective_of_part (List.prefix_append _ _) hline
  | false =>
    rw [insertDeclaration_of_not_directive h, Config.declaration_eq, declarationText]
    simp only [Bytes.ofString_append]
    rfl

/-- **The place of the declaration** can be read off what was made of the content. -/
theorem length_linesAbove (c : Config) (content : Bytes) :
    (linesAbove content).length =
      if hasDirective (insertDeclaration c.declaration content) then
        (insertDeclaration c.declaration content).firstLine.length + 1 else 0 := by
  rw [hasDirective_insertDeclaration]
  cases h : hasDirective content with
  | true => simp [linesAbove, h, firstLine_insertDeclaration]
  | false => simp [linesAbove, h]

theorem insertDeclaration_completed (d content : Bytes) :
    insertDeclaration d (completed content) = insertDeclaration d content := by
  unfold completed
  split_ifs with h
  · obtain ⟨hd, hl⟩ := isLoneDirective_iff.1 h
    rw [insertDeclaration_of_directive (hasDirective_of_part (List.prefix_append _ _) hd),
      insertDeclaration_of_directive hd, Bytes.firstLine_append_lineFeed,
      Bytes.afterFirstLine_append_lineFeed hl, Bytes.afterFirstLine_of_not_mem hl]
    rfl
  · rfl

/-- Contents become the same if their completions are the same. -/
theorem insertDeclaration_eq_iff_completed :
    insertDeclaration c.declaration content = insertDeclaration c.declaration content' ↔
      completed content = completed content' := by
  constructor
  · intro h
    -- The place of the declaration is read off the result, so both are cut in the same place.
    rw [← cutOut_insertDeclaration c.declaration content,
      ← cutOut_insertDeclaration c.declaration content', length_linesAbove c content,
      length_linesAbove c content', h]
  · intro h
    rw [← insertDeclaration_completed, h, insertDeclaration_completed]

/-- **Contents become the same** if they are the same, or if they are a directive without and with
its line feed. -/
theorem insertDeclaration_eq_iff :
    insertDeclaration c.declaration content = insertDeclaration c.declaration content' ↔
      content = content' ∨ ∃ s, hasDirective s ∧ Bytes.lineFeed ∉ s ∧
        (content = s ∧ content' = s ++ [Bytes.lineFeed] ∨
          content = s ++ [Bytes.lineFeed] ∧ content' = s) := by
  rw [insertDeclaration_eq_iff_completed]
  constructor
  · intro h
    unfold completed at h
    -- Where just one of them is completed, the other one is that content with its line feed.
    split_ifs at h with h₁ h₂ h₂
    · exact .inl (List.append_cancel_right h)
    · obtain ⟨hd, hl⟩ := isLoneDirective_iff.1 h₁
      exact .inr ⟨content, hd, hl, .inl ⟨rfl, h.symm⟩⟩
    · obtain ⟨hd, hl⟩ := isLoneDirective_iff.1 h₂
      exact .inr ⟨content', hd, hl, .inr ⟨h, rfl⟩⟩
    · exact .inl h
  · have hcompleted : ∀ {s : Bytes}, hasDirective s → Bytes.lineFeed ∉ s →
        completed (s ++ [Bytes.lineFeed]) = completed s := by
      intro s hd hl
      rw [completed, if_neg fun h => (isLoneDirective_iff.1 h).2 (by simp), completed,
        if_pos (isLoneDirective_iff.2 ⟨hd, hl⟩)]
    rintro (rfl | ⟨s, hd, hl, ⟨rfl, rfl⟩ | ⟨rfl, rfl⟩⟩)
    · rfl
    · exact (hcompleted hd hl).symm
    · exact hcompleted hd hl

/-! ## The first two lines -/

theorem lineFeed_not_mem_declarationText {coding : String} (h : codingIssues coding = []) :
    Bytes.lineFeed ∉ Bytes.ofString (declarationText coding) := by
  have hvalid : ({ coding } : Config).Valid := by
    have hdefault := Config.valid_default
    simp only [Config.Valid, Config.issues, List.append_eq_nil_iff] at hdefault ⊢
    exact ⟨⟨⟨⟨h, hdefault.1.1.1.2⟩, hdefault.1.1.2⟩, hdefault.1.2⟩, hdefault.2⟩
  exact hvalid.lineFeed_not_mem_text

/-- **The first two lines after an insertion** are the declaration and the line that was first, a
directive before the declaration. -/
theorem headLines_insertDeclaration (h : codingIssues c.coding = []) (content : Bytes) :
    (insertDeclaration c.declaration content).headLines =
      if hasDirective content then
        [content.firstLine, Bytes.ofString (declarationText c.coding)]
      else [Bytes.ofString (declarationText c.coding), content.firstLine] := by
  have htext := lineFeed_not_mem_declarationText h
  rw [Config.declaration_eq]
  cases hd : hasDirective content with
  | true =>
    rw [insertDeclaration_of_directive hd, List.append_assoc, List.singleton_append,
      Bytes.headLines_append (Bytes.lineFeed_not_mem_firstLine content) htext]
    rfl
  | false =>
    rw [insertDeclaration_of_not_directive hd, List.append_assoc, List.singleton_append,
      Bytes.headLines, Bytes.firstLine_append_of_not_mem htext,
      Bytes.afterFirstLine_append_lineFeed htext]
    simp [Bytes.firstLine]

/-- **An insertion in full.** The declaration comes after the interpreter directive or at the start;
without it the content is left, perhaps with a line feed after the directive; contents become the
same only if this line feed is all they differ in; and in a content that was not compliant the
inserted line is the one declaration on the first two lines. -/
theorem insertion_undone (c : Config) (content : Bytes) :
    (hasDirective content →
      (insertDeclaration c.declaration content).firstLine = content.firstLine ∧
      content.firstLine ++ Bytes.lineFeed :: c.declaration <+:
        insertDeclaration c.declaration content) ∧
    (hasDirective content = false →
      c.declaration <+: insertDeclaration c.declaration content) ∧
    Bytes.cutOut (if hasDirective content then content.firstLine.length + 1 else 0)
        c.declaration.length (insertDeclaration c.declaration content) =
      (if hasDirective content ∧ Bytes.lineFeed ∉ content then content ++ [Bytes.lineFeed]
        else content) ∧
    (∀ content',
      insertDeclaration c.declaration content = insertDeclaration c.declaration content' ↔
      content = content' ∨ ∃ s, hasDirective s ∧ Bytes.lineFeed ∉ s ∧
        (content = s ∧ content' = s ++ [Bytes.lineFeed] ∨
          content = s ++ [Bytes.lineFeed] ∧ content' = s)) ∧
    (codingIssues c.coding = [] → isCompliant content = false →
      (insertDeclaration c.declaration content).headLines =
        (if hasDirective content then
          [content.firstLine, Bytes.ofString (declarationText c.coding)]
        else [Bytes.ofString (declarationText c.coding), content.firstLine]) ∧
      isDeclaration (Bytes.ofString (declarationText c.coding)) = true ∧
      isDeclaration content.firstLine = false) := by
  refine ⟨fun h => ⟨firstLine_insertDeclaration h _, ?_⟩, fun h => ?_, ?_,
    fun _ => insertDeclaration_eq_iff, fun hc hn => ?_⟩
  · rw [insertDeclaration_of_directive h, ← List.cons_append, ← List.append_assoc]
    exact List.prefix_append _ _
  · rw [insertDeclaration_of_not_directive h]
    exact List.prefix_append _ _
  · have hplace : (if hasDirective content then content.firstLine.length + 1 else 0) =
        (linesAbove content).length := by
      cases h : hasDirective content <;> simp [linesAbove, h]
    rw [hplace, cutOut_insertDeclaration]
    simp only [completed, isLoneDirective_iff]
  · rw [isCompliant, Bool.or_eq_false_iff, ← isDeclaration_firstLine] at hn
    exact ⟨headLines_insertDeclaration hc content, (recognised_of_codingIssues hc).2, hn.1⟩

/-- A directive without a line feed, which becomes what the directive with it becomes; and a content
with a declaration on a line that does not count. -/
theorem insertion_undone_of_lone_directive :
    hasDirective (Bytes.ofString "#!a") ∧
    (insertDeclaration ({} : Config).declaration (Bytes.ofString "#!a")).firstLine =
      Bytes.ofString "#!a" ∧
    insertDeclaration ({} : Config).declaration (Bytes.ofString "#!a") =
      insertDeclaration ({} : Config).declaration (Bytes.ofString "#!a\n") ∧
    hasDirective (Bytes.ofString "\r\n\n# coding: b-1") = false ∧
    ({} : Config).declaration <+:
      insertDeclaration ({} : Config).declaration (Bytes.ofString "\r\n\n# coding: b-1") ∧
    codingIssues ({} : Config).coding = [] ∧
    isCompliant (Bytes.ofString "\r\n\n# coding: b-1") = false ∧
    (insertDeclaration ({} : Config).declaration (Bytes.ofString "\r\n\n# coding: b-1")).headLines =
      [Bytes.ofString "# -*- coding: UTF-8 -*-", Bytes.ofString "\r"] := by
  obtain ⟨hdirective, -, -, hsame, -⟩ := insertion_undone {} (Bytes.ofString "#!a")
  obtain ⟨-, hstart, -, -, hlines⟩ := insertion_undone {} (Bytes.ofString "\r\n\n# coding: b-1")
  refine ⟨by decide, (hdirective (by decide)).1, (hsame _).2 (.inr ⟨Bytes.ofString "#!a", by decide,
    by decide, .inl ⟨rfl, by decide⟩⟩), by decide, hstart (by decide), by decide, by decide, ?_⟩
  exact (hlines (by decide) (by decide)).1

end SourceCoding
