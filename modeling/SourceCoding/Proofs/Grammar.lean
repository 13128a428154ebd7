import SourceCoding.Proofs.Recognition

/-!
# The grammar of declarations

The recogniser looks for the first keyword on the first line and for a codec name anywhere after
it. What it accepts is described without a search: a byte string is a declaration if it can be
written in a certain form, whichever of several keywords and names that form makes use of.

## Main definitions

* `Declaration.Form`: the form of a declaration
* `Bytes.headLines`: the first two lines of a content

## Main results

* `Declaration.holdsCodec_iff`, `Declaration.afterKeyword_iff`: what is searched for is a
  decomposition
* `isDeclaration_iff`: the recogniser accepts what has the form of a declaration
* `isCompliant_iff`: a content is compliant if such a line starts on its first or second line
* `recognised_iff_form`: both, and that all else does not matter
-/

namespace SourceCoding

namespace Bytes

/-- **The first two lines of a content**, without their line feeds. -/
def headLines (bs : Bytes) : List Bytes :=
  bs.firstLine :: (bs.afterFirstLine.map firstLine).toList

theorem firstLine_append_of_not_mem {a : Bytes} (h : lineFeed ∉ a) (rest : Bytes) :
    firstLine (a ++ rest) = a ++ firstLine rest := by
  refine List.takeWhile_append_of_pos fun b hb => ?_
  simp only [ne_eq, decide_eq_true_eq]
  rintro rfl
  exact h hb

/-- The first line comes first. -/
theorem exists_firstLine_append (bs : Bytes) : ∃ rest, bs = firstLine bs ++ rest := by
  cases h : afterFirstLine bs with
  | none => exact ⟨[], by rw [firstLine_eq_self h, List.append_nil]⟩
  | some rest => exact ⟨_, firstLine_append h⟩

theorem headLines_append {a b : Bytes} (ha : lineFeed ∉ a) (hb : lineFeed ∉ b) (rest : Bytes) :
    headLines (a ++ lineFeed :: (b ++ lineFeed :: rest)) = [a, b] := by
  have hline : ∀ {l : Bytes}, lineFeed ∉ l → firstLine l = l := fun h =>
    firstLine_eq_self (afterFirstLine_of_not_mem h)
  rw [headLines, afterFirstLine_append_lineFeed ha, firstLine_append_lineFeed, hline ha,
    Option.map_some, firstLine_append_lineFeed, hline hb]
  rfl

end Bytes

namespace Declaration

/-- **The form of a declaration**: a hash; the keyword and a separator later on the line; a word
byte, a hyphen and a digit side by side later still; and anything after them. -/
inductive Form : Bytes → Prop where
  /-- The parts of a declaration. -/
  | parts {before between : Bytes} {separator word digit : UInt8} (rest : Bytes) :
    Bytes.lineFeed ∉ before → separator = 0x3D ∨ separator = 0x3A →
    Bytes.lineFeed ∉ between → Bytes.isWord word → Bytes.isDigit digit →
    Form (0x23 :: (before ++ (keyword ++ separator ::
      (between ++ word :: Bytes.hyphen :: digit :: rest))))

/-- A declaration that goes on is a declaration. -/
theorem Form.append {line : Bytes} (h : Form line) (more : Bytes) : Form (line ++ more) := by
  obtain ⟨rest, hbefore, hsep, hbetween, hword, hdigit⟩ := h
  simpa using Form.parts (rest ++ more) hbefore hsep hbetween hword hdigit

/-! ## What is searched for -/

theorem isSeparator_iff {b : UInt8} : isSeparator b = true ↔ b = 0x3D ∨ b = 0x3A := by
  simp [isSeparator]

/-- **A codec name stands somewhere.** -/
theorem holdsCodec_iff {bs : Bytes} : holdsCodec bs = true ↔
    ∃ before word digit rest, bs = before ++ word :: Bytes.hyphen :: digit :: rest ∧
      Bytes.isWord word ∧ Bytes.isDigit digit := by
  constructor
  · intro h
    fun_induction holdsCodec bs with
    | case1 w h d rest ih =>
      rw [Bool.or_eq_true, Bool.and_eq_true, Bool.and_eq_true, beq_iff_eq] at h
      rcases h with ⟨⟨hw, rfl⟩, hd⟩ | h
      · exact ⟨[], w, d, rest, rfl, hw, hd⟩
      · obtain ⟨before, w', d', rest', he, hw, hd⟩ := ih h
        exact ⟨w :: before, w', d', rest', by rw [he, List.cons_append], hw, hd⟩
    | case2 => simp at h
  · rintro ⟨before, w, d, rest, rfl, hw, hd⟩
    induction before with
    | nil => simp [holdsCodec, hw, hd]
    | cons b before ih =>
      obtain ⟨x, y, more, hmore⟩ : ∃ x y more,
          before ++ w :: Bytes.hyphen :: d :: rest = x :: y :: more := by
        rcases before with _ | ⟨x, _ | ⟨y, before⟩⟩ <;> simp
      rw [hmore] at ih
      rw [List.cons_append, hmore, holdsCodec, ih, Bool.or_true]

theorem holdsCodec_append {bs : Bytes} (h : holdsCodec bs) (before : Bytes) :
    holdsCodec (before ++ bs) := by
  obtain ⟨before', w, d, rest, rfl, hw, hd⟩ := holdsCodec_iff.1 h
  exact holdsCodec_iff.2 ⟨before ++ before', w, d, rest, by simp, hw, hd⟩

theorem dropKeyword_eq_some {bs rest : Bytes} : dropKeyword bs = some rest ↔
    ∃ separator, isSeparator separator ∧ bs = keyword ++ separator :: rest := by
  unfold dropKeyword
  constructor
  · intro h
    split at h
    · rename_i b rest' hpre hdrop
      split_ifs at h with hsep
      obtain rfl := Option.some.inj h
      obtain ⟨more, rfl⟩ := List.isPrefixOf_iff_prefix.1 hpre
      rw [List.drop_left] at hdrop
      exact ⟨b, hsep, by rw [hdrop]⟩
    · cases h
  · rintro ⟨b, hsep, rfl⟩
    rw [List.isPrefixOf_iff_prefix.2 (List.prefix_append _ _), List.drop_left]
    exact if_pos hsep

/-- The keyword is found where it stands. -/
theorem exists_of_afterKeyword {bs rest : Bytes} (h : afterKeyword bs = some rest) :
    ∃ before separator, bs = before ++ (keyword ++ separator :: rest) ∧ isSeparator separator := by
  induction bs with
  | nil => cases h
  | cons b bs ih =>
    rw [afterKeyword, Option.or_eq_some_iff] at h
    rcases h with hdrop | ⟨-, hlater⟩
    · obtain ⟨s, hsep, he⟩ := dropKeyword_eq_some.1 hdrop
      exact ⟨[], s, he, hsep⟩
    · obtain ⟨before, s, he, hsep⟩ := ih hlater
      exact ⟨b :: before, s, by rw [he, List.cons_append], hsep⟩

theorem afterKeyword_of_dropKeyword {bs rest : Bytes} (h : dropKeyword bs = some rest) :
    afterKeyword bs = some rest := by
  cases bs with
  | nil => cases h
  | cons b bs => rw [afterKeyword, h, Option.some_or]

/-- **The first keyword leaves the longest rest.** -/
theorem exists_afterKeyword {separator : UInt8} (before rest : Bytes) (h : isSeparator separator) :
    ∃ more, afterKeyword (before ++ (keyword ++ separator :: rest)) = some (more ++ rest) := by
  induction before with
  | nil => exact ⟨[], afterKeyword_of_dropKeyword (dropKeyword_eq_some.2 ⟨separator, h, rfl⟩)⟩
  | cons b before ih =>
    cases hdrop : dropKeyword (b :: before ++ (keyword ++ separator :: rest)) with
    | none =>
      obtain ⟨more, hmore⟩ := ih
      refine ⟨more, ?_⟩
      rw [List.cons_append] at hdrop ⊢
      rw [afterKeyword, hdrop, hmore, Option.none_or]
    | some rest' =>
      -- An earlier keyword leaves all that the later one leaves, and more.
      obtain ⟨s, -, he⟩ := dropKeyword_eq_some.1 hdrop
      have hlater : rest <:+ b :: before ++ (keyword ++ separator :: rest) :=
        ⟨b :: before ++ keyword ++ [separator], by simp⟩
      have hearlier : rest' <:+ b :: before ++ (keyword ++ separator :: rest) :=
        ⟨keyword ++ [s], by rw [he, List.append_assoc, List.singleton_append]⟩
      have hlength := congrArg List.length he
      simp only [List.length_append, List.length_cons] at hlength
      obtain ⟨more, rfl⟩ := List.suffix_of_suffix_length_le hlater hearlier (by omega)
      exact ⟨more, afterKeyword_of_dropKeyword hdrop⟩

/-- **A codec name stands after the first keyword** just if it stands after any of them. -/
theorem afterKeyword_iff {bs : Bytes} : (afterKeyword bs).any holdsCodec = true ↔
    ∃ before separator rest, bs = before ++ (keyword ++ separator :: rest) ∧
      isSeparator separator ∧ holdsCodec rest := by
  constructor
  · intro h
    obtain ⟨rest, hrest, hcodec⟩ := (Option.any_eq_true ..).1 h
    obtain ⟨before, s, he, hsep⟩ := exists_of_afterKeyword hrest
    exact ⟨before, s, rest, he, hsep, hcodec⟩
  · rintro ⟨before, s, rest, rfl, hsep, hcodec⟩
    obtain ⟨more, hmore⟩ := exists_afterKeyword before rest hsep
    rw [hmore, Option.any_some]
    exact holdsCodec_append hcodec more

end Declaration

/-! ## Lines and contents -/

open Declaration (Form)

theorem isDeclaration_eq_true {line : Bytes} : isDeclaration line = true ↔
    ∃ comment, line.firstLine = 0x23 :: comment ∧
      (Declaration.afterKeyword comment).any Declaration.holdsCodec := by
  unfold isDeclaration
  split
  · rename_i comment h
    simp [h]
  · rename_i h
    simpa using fun comment hc => absurd hc (h comment)

/-- **The recogniser accepts what has the form of a declaration.** -/
theorem isDeclaration_iff {line : Bytes} : isDeclaration line = true ↔ Form line := by
  constructor
  · intro h
    obtain ⟨comment, hline, hcomment⟩ := isDeclaration_eq_true.1 h
    obtain ⟨before, s, codec, rfl, hsep, hcodec⟩ := Declaration.afterKeyword_iff.1 hcomment
    obtain ⟨between, w, d, rest, rfl, hw, hd⟩ := Declaration.holdsCodec_iff.1 hcodec
    -- All of it stands on the first line, so there is no line feed between the parts.
    have hfeed := Bytes.lineFeed_not_mem_firstLine line
    rw [hline] at hfeed
    simp only [List.mem_cons, List.mem_append, not_or] at hfeed
    obtain ⟨more, hmore⟩ := Bytes.exists_firstLine_append line
    rw [hmore, hline]
    exact (Form.parts rest hfeed.2.1 (Declaration.isSeparator_iff.1 hsep) hfeed.2.2.2.2.1 hw
      hd).append more
  · rintro ⟨rest, hbefore, hsep, hbetween, hw, hd⟩
    rename_i before between s w d
    have hfirst : Bytes.firstLine (0x23 :: (before ++ (Declaration.keyword ++ s ::
        (between ++ w :: Bytes.hyphen :: d :: rest)))) =
        0x23 :: (before ++ (Declaration.keyword ++ s ::
          (between ++ w :: Bytes.hyphen :: d :: Bytes.firstLine rest))) := by
      have hfeed : Bytes.lineFeed ∉ 0x23 :: (before ++ (Declaration.keyword ++ s ::
          (between ++ [w, Bytes.hyphen, d]))) := by
        have hs : Bytes.lineFeed ≠ s := by rintro rfl; exact absurd hsep (by decide)
        have hw' : Bytes.lineFeed ≠ w := by rintro rfl; exact absurd hw (by decide)
        have hd' : Bytes.lineFeed ≠ d := by rintro rfl; exact absurd hd (by decide)
        simp only [List.mem_cons, List.mem_append, List.not_mem_nil, or_false, not_or]
        exact ⟨by decide, hbefore, by decide, hs, hbetween, hw', by decide, hd'⟩
      simpa using Bytes.firstLine_append_of_not_mem hfeed rest
    refine isDeclaration_eq_true.2 ⟨_, hfirst, Declaration.afterKeyword_iff.2 ⟨before, s, _, rfl,
      Declaration.isSeparator_iff.2 hsep, ?_⟩⟩
    exact Declaration.holdsCodec_iff.2 ⟨between, w, d, _, rfl, hw, hd⟩

/-- **A content is compliant** if a declaration starts on its first line or on its second. -/
theorem isCompliant_iff {content : Bytes} : isCompliant content = true ↔
    ∃ above line rest, content = above ++ (line ++ rest) ∧ Form line ∧ Bytes.lineFeed ∉ line ∧
      (above = [] ∨ ∃ first, Bytes.lineFeed ∉ first ∧ above = first ++ [Bytes.lineFeed]) := by
  have hhead : ∀ {bs : Bytes}, isDeclaration bs → ∃ line rest, bs = line ++ rest ∧ Form line ∧
      Bytes.lineFeed ∉ line := by
    intro bs h
    obtain ⟨rest, hrest⟩ := Bytes.exists_firstLine_append bs
    refine ⟨bs.firstLine, rest, hrest, isDeclaration_iff.1 ?_, Bytes.lineFeed_not_mem_firstLine bs⟩
    rwa [isDeclaration_firstLine]
  rw [isCompliant, Bool.or_eq_true, Option.any_eq_true]
  constructor
  · rintro (h | ⟨second, hsecond, h⟩)
    · obtain ⟨line, rest, he, hform, hfeed⟩ := hhead h
      exact ⟨[], line, rest, he, hform, hfeed, .inl rfl⟩
    · obtain ⟨line, rest, rfl, hform, hfeed⟩ := hhead h
      refine ⟨content.firstLine ++ [Bytes.lineFeed], line, rest, ?_, hform, hfeed,
        .inr ⟨_, Bytes.lineFeed_not_mem_firstLine content, rfl⟩⟩
      rw [List.append_assoc]
      exact Bytes.firstLine_append hsecond
  · rintro ⟨above, line, rest, rfl, hform, -, rfl | ⟨first, hfirst, rfl⟩⟩
    · exact .inl (isDeclaration_iff.2 (hform.append rest))
    · refine .inr ⟨line ++ rest, ?_, isDeclaration_iff.2 (hform.append rest)⟩
      rw [List.append_assoc]
      exact Bytes.afterFirstLine_append_lineFeed hfirst _

/-- What is recognised depends on the first two lines alone. -/
theorem isCompliant_eq_headLines (content : Bytes) :
    isCompliant content = content.headLines.any isDeclaration := by
  rw [isCompliant, Bytes.headLines, List.any_cons, isDeclaration_firstLine]
  cases content.afterFirstLine with
  | none => rfl
  | some second => simp [isDeclaration_firstLine]

/-- **The recogniser accepts exactly the form of a declaration**, in a line and in a content. So two
contents with the same first two lines are judged alike, and what follows the second line feed never
matters. -/
theorem recognised_iff_form :
    (∀ line, isDeclaration line = true ↔ Form line) ∧
    (∀ content, isCompliant content = true ↔
      ∃ above line rest, content = above ++ (line ++ rest) ∧ Form line ∧ Bytes.lineFeed ∉ line ∧
        (above = [] ∨ ∃ first, Bytes.lineFeed ∉ first ∧ above = first ++ [Bytes.lineFeed])) ∧
    (∀ content content' : Bytes, content.headLines = content'.headLines →
      isCompliant content = isCompliant content') ∧
    ∀ first second rest rest' : Bytes, Bytes.lineFeed ∉ first → Bytes.lineFeed ∉ second →
      isCompliant (first ++ Bytes.lineFeed :: (second ++ Bytes.lineFeed :: rest)) =
        isCompliant (first ++ Bytes.lineFeed :: (second ++ Bytes.lineFeed :: rest')) := by
  refine ⟨fun _ => isDeclaration_iff, fun _ => isCompliant_iff, fun content content' h => ?_,
    fun first second rest rest' hfirst hsecond => ?_⟩
  · rw [isCompliant_eq_headLines, h, ← isCompliant_eq_headLines]
  · rw [isCompliant_eq_headLines, isCompliant_eq_headLines, Bytes.headLines_append hfirst hsecond,
      Bytes.headLines_append hfirst hsecond]

/-- A directive, a declaration with a further keyword after its codec name, and two lines that do
not count. -/
theorem recognised_iff_form_second :
    Form (Bytes.ofString "# coding=b-1 coding:") ∧
    Bytes.lineFeed ∉ Bytes.ofString "#!a" ∧
    Bytes.lineFeed ∉ Bytes.ofString "# coding=b-1 coding:" ∧
    isCompliant (Bytes.ofString "#!a" ++ Bytes.lineFeed ::
        (Bytes.ofString "# coding=b-1 coding:" ++ Bytes.lineFeed :: Bytes.ofString "#")) =
      isCompliant (Bytes.ofString "#!a" ++ Bytes.lineFeed ::
        (Bytes.ofString "# coding=b-1 coding:" ++ Bytes.lineFeed ::
          Bytes.ofString "# coding: c-2")) ∧
    (Bytes.ofString "#!a\n# coding=b-1 coding:").headLines =
      (Bytes.ofString "#!a\n# coding=b-1 coding:\n").headLines ∧
    isCompliant (Bytes.ofString "#!a\n# coding=b-1 coding:") =
      isCompliant (Bytes.ofString "#!a\n# coding=b-1 coding:\n") := by
  obtain ⟨hline, -, hhead, hrest⟩ := recognised_iff_form
  exact ⟨(hline _).1 (by decide), by decide, by decide, hrest _ _ _ _ (by decide) (by decide),
    by decide, hhead _ _ (by decide)⟩

end SourceCoding
