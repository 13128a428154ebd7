import Mathlib.Tactic.Common
import SourceCoding.Config.Issue
import SourceCoding.Declaration

/-!
# What is inserted is recognised

A configuration without issues inserts a line that its own recogniser accepts, so no content gets a
second declaration. The names it adds to paths have no slash in them.

## Main definitions

* `Config.fixed`: the content that a pass leaves of a content

## Main results

* `Config.Valid.isCompliant_insertDeclaration`: with its declaration a content is compliant
* `Config.Valid.fixed_fixed`: fixing twice is fixing once
* `Config.Valid.slash_not_mem_suffix`: a backup suffix has no slash
-/

namespace SourceCoding

/-! ## ASCII characters in a text -/

namespace Bytes

/-- A byte of ASCII in the form of a character is that character. -/
theorem eq_of_mem_utf8EncodeChar {c : Char} {b : UInt8} (h : b ∈ String.utf8EncodeChar c)
    (hb : b.toNat < 128) : c.toNat = b.toNat := by
  have hv : c.toNat = c.val.toNat := rfl
  unfold String.utf8EncodeChar at h
  dsimp only at h
  split_ifs at h <;> simp only [List.mem_cons, List.not_mem_nil, or_false] at h
  · rw [h, hv, UInt8.toNat_ofNat']
    omega
  -- Every byte of a longer form is at least 128.
  · rcases h with rfl | rfl <;> rw [UInt8.toNat_ofNat'] at hb <;> omega
  · rcases h with rfl | rfl | rfl <;> rw [UInt8.toNat_ofNat'] at hb <;> omega
  · rcases h with rfl | rfl | rfl | rfl <;> rw [UInt8.toNat_ofNat'] at hb <;> omega

theorem exists_of_mem_ofString {s : String} {b : UInt8} (h : b ∈ ofString s)
    (hb : b.toNat < 128) : ∃ c ∈ s.toList, c.toNat = b.toNat := by
  obtain ⟨c, hc, hm⟩ := List.mem_flatMap.1 h
  exact ⟨c, hc, eq_of_mem_utf8EncodeChar hm hb⟩

theorem ofString_ne_nil {s : String} (h : s.toList ≠ []) : ofString s ≠ [] := by
  obtain ⟨c, hc⟩ := List.exists_mem_of_ne_nil _ h
  intro hn
  exact String.utf8EncodeChar_ne_nil (List.flatMap_eq_nil_iff.1 hn c hc)

/-! ## The cut at a line feed -/

theorem firstLine_append_lineFeed (bs rest : Bytes) :
    firstLine (bs ++ lineFeed :: rest) = firstLine bs := by
  induction bs with
  | nil => simp [firstLine]
  | cons b tail ih =>
    by_cases h : b = lineFeed
    · simp [firstLine, h]
    · simpa [firstLine, h] using ih

theorem afterFirstLine_append_lineFeed {a : Bytes} (h : lineFeed ∉ a) (rest : Bytes) :
    afterFirstLine (a ++ lineFeed :: rest) = some rest := by
  induction a with
  | nil => simp [afterFirstLine]
  | cons b a ih =>
    rw [List.mem_cons, not_or] at h
    rw [List.cons_append, afterFirstLine, if_neg (Ne.symm h.1), ih h.2]

theorem afterFirstLine_of_not_mem {bs : Bytes} (h : lineFeed ∉ bs) : afterFirstLine bs = none := by
  cases ha : afterFirstLine bs with
  | none => rfl
  | some rest =>
    rw [firstLine_append ha] at h
    simp at h

end Bytes

theorem isDeclaration_append_lineFeed (line rest : Bytes) :
    isDeclaration (line ++ Bytes.lineFeed :: rest) = isDeclaration line := by
  rw [← isDeclaration_firstLine, Bytes.firstLine_append_lineFeed, isDeclaration_firstLine]

/-- **What is inserted makes a content compliant** if its first line is a declaration. -/
theorem isCompliant_insertDeclaration_of {text : Bytes} (h : isDeclaration text)
    (content : Bytes) : isCompliant (insertDeclaration (text ++ [Bytes.lineFeed]) content) := by
  rw [isCompliant, Bool.or_eq_true]
  cases hd : hasDirective content with
  | true =>
    right
    rw [insertDeclaration_of_directive hd,
      Bytes.afterFirstLine_append_lineFeed (Bytes.lineFeed_not_mem_firstLine content),
      List.append_assoc]
    simpa [isDeclaration_append_lineFeed] using h
  | false =>
    left
    rw [insertDeclaration_of_not_directive hd, List.append_assoc]
    simpa [isDeclaration_append_lineFeed] using h

/-! ## Configurations without issues -/

theorem slash_not_mem_of_nameIssues {setting : NameSetting} {value : String}
    (h : nameIssues setting value = []) : Bytes.slash ∉ Bytes.ofString value := by
  intro hm
  obtain ⟨x, hx, hn⟩ := Bytes.exists_of_mem_ofString hm (by decide)
  have hslash : x = '/' := Char.toNat_inj.1 hn
  simp only [nameIssues, List.append_eq_nil_iff] at h
  have hany : value.toList.any (fun c => c = '/' || c = '\\') = true :=
    List.any_eq_true.2 ⟨x, hx, by simp [hslash]⟩
  simp [hany] at h

theorem ne_nil_of_nameIssues {setting : NameSetting} {value : String}
    (h : nameIssues setting value = []) : Bytes.ofString value ≠ [] := by
  refine Bytes.ofString_ne_nil fun hn => ?_
  simp [nameIssues, hn] at h

/-- An encoding name without issues has no blanks, and it is recognised in a declaration. -/
theorem recognised_of_codingIssues {coding : String} (h : codingIssues coding = []) :
    coding.toList.any isBlank = false ∧
      isDeclaration (Bytes.ofString (declarationText coding)) := by
  unfold codingIssues at h
  by_cases hempty : coding.toList = []
  · rw [if_pos hempty] at h
    cases h
  · rw [if_neg hempty, List.append_eq_nil_iff, List.append_eq_nil_iff] at h
    obtain ⟨⟨hblank, -⟩, hdecl⟩ := h
    constructor
    · by_contra hb
      rw [if_pos (by simpa using hb)] at hblank
      cases hblank
    · by_contra hd
      rw [if_neg hd] at hdecl
      cases hdecl

namespace Config

/-- The suffix of backups as bytes. -/
def suffix (c : Config) : Bytes := Bytes.ofString c.backupSuffix

/-- **The content that a pass leaves of a content.** -/
def fixed (c : Config) (content : Bytes) : Bytes :=
  if isCompliant content then content else insertDeclaration c.declaration content

variable {c : Config}

theorem fixed_of_compliant {content : Bytes} (h : isCompliant content) :
    c.fixed content = content := by
  simp [fixed, h]

theorem fixed_of_not_compliant {content : Bytes} (h : isCompliant content = false) :
    c.fixed content = insertDeclaration c.declaration content := by
  simp [fixed, h]

theorem declaration_eq (c : Config) :
    c.declaration = Bytes.ofString (declarationText c.coding) ++ [Bytes.lineFeed] := by
  rw [declaration, declarationLine, Bytes.ofString_append]
  rfl

namespace Valid

theorem issues_nil (h : c.Valid) :
    codingIssues c.coding = [] ∧ nameIssues .extension c.extension = [] ∧
      nameIssues .excludedDir c.excludedDir = [] ∧
      nameIssues .backupSuffix c.backupSuffix = [] := by
  simp only [Config.Valid, issues, List.append_eq_nil_iff] at h
  exact ⟨h.1.1.1.1, h.1.1.1.2, h.1.2, h.2⟩

/-- **The inserted line is a declaration.** -/
theorem isDeclaration_text (h : c.Valid) :
    isDeclaration (Bytes.ofString (declarationText c.coding)) :=
  (recognised_of_codingIssues h.issues_nil.1).2

theorem not_blank (h : c.Valid) : ∀ x ∈ c.coding.toList, isBlank x = false := by
  intro x hx
  by_contra hb
  have hany : c.coding.toList.any isBlank = true := List.any_eq_true.2 ⟨x, hx, by simpa using hb⟩
  rw [(recognised_of_codingIssues h.issues_nil.1).1] at hany
  cases hany

/-- The inserted line is one line. -/
theorem lineFeed_not_mem_text (h : c.Valid) :
    Bytes.lineFeed ∉ Bytes.ofString (declarationText c.coding) := by
  intro hm
  obtain ⟨x, hx, hn⟩ := Bytes.exists_of_mem_ofString hm (by decide)
  rw [declarationText, String.toList_append, String.toList_append, List.mem_append,
    List.mem_append] at hx
  rcases hx with (hx | hx) | hx
  · have : ∀ y ∈ "# -*- coding: ".toList, y.toNat ≠ Bytes.lineFeed.toNat := by simp [Bytes.lineFeed]
    exact this x hx hn
  · have := h.not_blank x hx
    simp [isBlank, hn, Bytes.lineFeed] at this
  · have : ∀ y ∈ " -*-".toList, y.toNat ≠ Bytes.lineFeed.toNat := by simp [Bytes.lineFeed]
    exact this x hx hn

/-- **With its declaration a content is compliant.** -/
theorem isCompliant_insertDeclaration (h : c.Valid) (content : Bytes) :
    isCompliant (insertDeclaration c.declaration content) := by
  rw [declaration_eq]
  exact isCompliant_insertDeclaration_of h.isDeclaration_text content

theorem isCompliant_fixed (h : c.Valid) (content : Bytes) : isCompliant (c.fixed content) := by
  cases hc : isCompliant content with
  | true => rwa [fixed_of_compliant hc]
  | false => rw [fixed_of_not_compliant hc]; exact h.isCompliant_insertDeclaration content

/-- **Fixing twice is fixing once.** -/
theorem fixed_fixed (h : c.Valid) (content : Bytes) : c.fixed (c.fixed content) = c.fixed content :=
  fixed_of_compliant (h.isCompliant_fixed content)

/-- **A backup suffix has no slash.** -/
theorem slash_not_mem_suffix (h : c.Valid) : Bytes.slash ∉ c.suffix :=
  slash_not_mem_of_nameIssues h.issues_nil.2.2.2

theorem suffix_ne_nil (h : c.Valid) : c.suffix ≠ [] :=
  ne_nil_of_nameIssues h.issues_nil.2.2.2

end Valid

/-- The default settings have no issues. -/
theorem valid_default : ({} : Config).Valid := by decide

end Config

end SourceCoding
