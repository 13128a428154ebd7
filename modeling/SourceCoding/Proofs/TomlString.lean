import Mathlib.Tactic.SplitIfs
import SourceCoding.Toml.Quoted
import SourceCoding.Toml.Written

/-!
# TOML strings read back

A text is written in one of four forms, and the reader undoes each of them. Where a form has
escapes, every piece that is written for a character is read as that character. Where it goes over
several lines, quotes stand for themselves as long as there are at most two in a row: the reader
takes them one by one unless three of them end the string, and then one or two before the last
three still belong to the text.

## Main results

* `Toml.basicBody_basicText`, `Toml.literalBody_plain`: the forms on one line
* `Toml.basicBody_linesText`, `Toml.literalBody_lines`: the forms over several lines
* `Toml.quoted_string`: a text in its form
-/

namespace SourceCoding.Toml

variable {lines : Bool} {c d e : Char} {s text rest more : List Char}

/-! ## Characters -/

@[simp] theorem push_some : push c (some (text, rest)) = some (c :: text, rest) := rfl

/-- A character that needs no code stands for itself, but for the line feed. -/
theorem isPlain_of_not_isCoded (hcode : isCoded c = false) (hline : c ≠ '\n') :
    isPlain c = true := by
  simp only [isCoded, Bool.or_eq_false_iff, Bool.and_eq_false_iff, decide_eq_false_iff_not] at hcode
  simp only [isPlain, Bool.or_eq_true, decide_eq_true_eq, Bool.and_eq_true]
  by_cases htab : c = '\t'
  · exact .inl htab
  · refine .inr ⟨?_, hcode.2⟩
    have := hcode.1
    simp [htab, hline] at this
    exact this

theorem hexValue?_hexDigit : ∀ n < 16, hexValue? (hexDigit n) = some n := by
  decide

/-- The code of a character stands for it. -/
theorem coded?_hexDigit (h : c.toNat < 0x100) :
    coded? ['0', '0', hexDigit (c.toNat / 16), hexDigit (c.toNat % 16)] = some c := by
  have hvalid : c.toNat.isValidChar := c.valid
  have hsum : c.toNat / 16 * 16 + c.toNat % 16 = c.toNat := Nat.div_add_mod' ..
  simp [coded?, hexValue?_hexDigit _ (show c.toNat / 16 < 16 by omega),
    hexValue?_hexDigit _ (Nat.mod_lt c.toNat (by decide : 0 < 16)),
    show hexValue? '0' = some 0 from rfl, hsum, hvalid]

/-! ## Quotes within a string over several lines -/

section

variable {body : List Char → Option (List Char × List Char)} {q : Char} {n : Nat}

/-- At most two quotes in a row stand for themselves, if a quote does that two more do not
follow. -/
theorem quotes_stand
    (hquote : ∀ {rest}, (∀ more, rest ≠ q :: q :: more) → body (q :: rest) = push q (body rest))
    (hn : n ≤ 2) (hc : c ≠ q) (h : body (c :: rest) = some (text, more)) :
    body (List.replicate n q ++ c :: rest) = some (List.replicate n q ++ text, more) := by
  have hone : body (q :: c :: rest) = some (q :: text, more) := by
    rw [hquote (by simp [hc]), h, push_some]
  obtain rfl | rfl | rfl : n = 0 ∨ n = 1 ∨ n = 2 := by omega
  · exact h
  · exact hone
  · show body (q :: q :: c :: rest) = some (q :: q :: text, more)
    rw [hquote (by simp [hc]), hone, push_some]

/-- One more quote joins those before it. -/
theorem replicate_append_cons (n : Nat) (q : Char) (s : List Char) :
    List.replicate n q ++ q :: s = List.replicate (n + 1) q ++ s := by
  simp [List.replicate_succ']

end

/-! ## Strings with escapes -/

theorem basicBody_plain (hplain : isPlain c = true) (hquote : c ≠ '"') (hslash : c ≠ '\\') :
    basicBody lines .inText (c :: rest) = push c (basicBody lines .inText rest) := by
  rw [basicBody.eq_def]
  simp [hplain, hquote, hslash]

theorem basicBody_simple (h : simpleEscape? d = some e) :
    basicBody lines .inText ('\\' :: d :: rest) = push e (basicBody lines .inText rest) := by
  unfold simpleEscape? at h
  split at h <;> cases h <;> rw [basicBody.eq_def] <;> simp [simpleEscape?]

theorem basicBody_code (h : c.toNat < 0x100) :
    basicBody lines .inText
      ('\\' :: 'u' :: '0' :: '0' :: hexDigit (c.toNat / 16) :: hexDigit (c.toNat % 16) :: rest) =
      push c (basicBody lines .inText rest) := by
  rw [basicBody.eq_def]
  simp [coded?_hexDigit h]

/-- **What is written for a character is read as that character**, if it is neither a quote nor a
line feed. -/
theorem basicBody_escape (hquote : c ≠ '"') (hline : c ≠ '\n') :
    basicBody lines .inText (escape c ++ rest) = push c (basicBody lines .inText rest) := by
  unfold escape
  split_ifs with hb ht hf hr hs hcode
  · exact hb ▸ basicBody_simple rfl
  · exact ht ▸ basicBody_simple rfl
  · exact hf ▸ basicBody_simple rfl
  · exact hr ▸ basicBody_simple rfl
  · subst hs
    exact basicBody_simple rfl
  · rw [Bool.or_eq_true, decide_eq_true_eq, decide_eq_true_eq] at hcode
    refine basicBody_code ?_
    rcases hcode with hlow | rfl
    · omega
    · decide
  · have hplain : isPlain c = true := isPlain_of_not_isCoded (by simp_all [isCoded]) hline
    exact basicBody_plain hplain hquote hs

/-- **A string with escapes on one line** is read up to its closing quote. -/
theorem basicBody_basicText (s rest : List Char) :
    basicBody false .inText (basicText s ++ '"' :: rest) = some (s, rest) := by
  induction s with
  | nil =>
    rw [basicText, List.flatMap_nil, List.nil_append, basicBody.eq_def]
    simp
  | cons c s ih =>
    rw [basicText, List.flatMap_cons, ← basicText, List.append_assoc]
    split_ifs with hquote hline
    · subst hquote
      rw [List.cons_append, List.cons_append, basicBody_simple rfl, List.nil_append, ih, push_some]
    · subst hline
      rw [List.cons_append, List.cons_append, basicBody_simple rfl, List.nil_append, ih, push_some]
    · rw [basicBody_escape hquote hline, ih, push_some]

/-- Over several lines a quote that two more do not follow stands for itself. -/
theorem basicBody_quote (h : ∀ more, rest ≠ '"' :: '"' :: more) :
    basicBody true .inText ('"' :: rest) = push '"' (basicBody true .inText rest) := by
  rw [basicBody.eq_def]
  simp [h]

/-- What is written for a character starts with a backslash or is that character, which is no
carriage return then. -/
theorem escape_eq_cons (c : Char) : ∃ d ds, escape c = d :: ds ∧ (d = '\\' ∨ d = c ∧ c ≠ '\r') := by
  unfold escape
  split_ifs with _ _ _ hr
  all_goals exact ⟨_, _, rfl, by simp [*]⟩

/-- **A string with escapes over several lines** is read up to its closing quotes; so are the `n`
quotes that stand before it. -/
theorem basicBody_linesText {n : Nat} (hn : n ≤ 2) (hc : c ≠ '"') (s rest : List Char) :
    basicBody true .inText
      (List.replicate n '"' ++ (linesText n s ++ '"' :: '"' :: '"' :: c :: rest)) =
      some (List.replicate n '"' ++ s, c :: rest) := by
  -- The reader looks ahead from a quote, so quotes that are written wait for what follows them.
  induction s generalizing n with
  | nil =>
    rw [linesText, List.nil_append, basicBody.eq_def]
    obtain rfl | rfl | rfl : n = 0 ∨ n = 1 ∨ n = 2 := by omega
    · simp [hc]
    · simp [hc]
    · simp
  | cons e s ih =>
    have ih₀ := ih (n := 0) (by decide)
    simp only [List.replicate_zero, List.nil_append] at ih₀
    rw [linesText]
    split_ifs with hquote htwo hline
    · subst hquote
      have hread : basicBody true .inText ('\\' :: '"' :: (linesText 0 s ++
          '"' :: '"' :: '"' :: c :: rest)) = some ('"' :: s, c :: rest) := by
        rw [basicBody_simple rfl, ih₀, push_some]
      exact quotes_stand basicBody_quote hn (by decide) hread
    · subst hquote
      rw [List.cons_append, replicate_append_cons, replicate_append_cons]
      exact ih (by omega)
    · subst hline
      refine quotes_stand basicBody_quote hn (by decide) ?_
      rw [basicBody.eq_def]
      simp [isBlank, ih₀]
    · obtain ⟨d, ds, hescape, hd⟩ := escape_eq_cons e
      have hread : basicBody true .inText (escape e ++ (linesText 0 s ++
          '"' :: '"' :: '"' :: c :: rest)) = some (e :: s, c :: rest) := by
        rw [basicBody_escape hquote hline, ih₀, push_some]
      rw [hescape] at hread ⊢
      rw [List.append_assoc]
      refine quotes_stand basicBody_quote hn ?_ hread
      rcases hd with rfl | ⟨rfl, -⟩
      · decide
      · exact hquote

/-! ## Strings without escapes -/

theorem literalBody_plain_cons (hquote : c ≠ '\'') (hplain : isPlain c = true) :
    literalBody lines (c :: rest) = push c (literalBody lines rest) := by
  rw [literalBody.eq_def]
  simp [hquote, hplain]

/-- **A string without escapes on one line** is read up to its closing quote. -/
theorem literalBody_plain (hplain : ∀ c ∈ s, c ≠ '\'' ∧ isPlain c = true) (rest : List Char) :
    literalBody false (s ++ '\'' :: rest) = some (s, rest) := by
  induction s with
  | nil =>
    rw [List.nil_append, literalBody.eq_def]
    simp
  | cons c s ih =>
    obtain ⟨hquote, hc⟩ := hplain c List.mem_cons_self
    rw [List.cons_append, literalBody_plain_cons hquote hc,
      ih fun d hd => hplain d (List.mem_cons_of_mem _ hd), push_some]

/-- Over several lines a quote that two more do not follow stands for itself. -/
theorem literalBody_quote (h : ∀ more, rest ≠ '\'' :: '\'' :: more) :
    literalBody true ('\'' :: rest) = push '\'' (literalBody true rest) := by
  rw [literalBody.eq_def]
  simp [h]

theorem le_longestRun_go (q : Char) (n : Nat) (s : List Char) : n ≤ longestRun.go q n s := by
  induction s generalizing n with
  | nil => simp [longestRun.go]
  | cons c s ih =>
    rw [longestRun.go]
    split_ifs
    · exact Nat.le_trans (Nat.le_succ n) (ih (n + 1))
    · exact Nat.le_max_left ..

/-- **A string without escapes over several lines** is read up to its closing quotes, if no more
than two of its quotes stand in a row; so are the `n` quotes that stand before it. -/
theorem literalBody_lines {n : Nat} (hcode : ∀ c ∈ s, isCoded c = false)
    (hrun : longestRun.go '\'' n s ≤ 2) (hc : c ≠ '\'') (rest : List Char) :
    literalBody true (List.replicate n '\'' ++ (s ++ '\'' :: '\'' :: '\'' :: c :: rest)) =
      some (List.replicate n '\'' ++ s, c :: rest) := by
  -- The quotes that wait are those of the run that the count of the longest one has come to.
  induction s generalizing n with
  | nil =>
    rw [List.nil_append, literalBody.eq_def]
    rw [longestRun.go] at hrun
    obtain rfl | rfl | rfl : n = 0 ∨ n = 1 ∨ n = 2 := by omega
    · simp [hc]
    · simp [hc]
    · simp
  | cons e s ih =>
    have hcode' : ∀ d ∈ s, isCoded d = false := fun d hd => hcode d (List.mem_cons_of_mem _ hd)
    rw [longestRun.go] at hrun
    split_ifs at hrun with hquote
    · subst hquote
      rw [List.cons_append, replicate_append_cons, replicate_append_cons]
      exact ih hcode' hrun
    · refine quotes_stand literalBody_quote (by omega) hquote ?_
      have ih₀ := ih (n := 0) hcode' (by omega)
      simp only [List.replicate_zero, List.nil_append] at ih₀
      by_cases hline : e = '\n'
      · subst hline
        rw [literalBody.eq_def]
        simp [ih₀]
      · have hplain := isPlain_of_not_isCoded (hcode e List.mem_cons_self) hline
        exact (literalBody_plain_cons hquote hplain).trans (by rw [← push_some, ← ih₀]; rfl)

/-! ## A text in its form -/

/-- A text without a run of a character does not hold it. -/
theorem not_mem_of_longestRun_eq_zero {q : Char} (h : longestRun q s = 0) : q ∉ s := by
  rw [longestRun] at h
  induction s with
  | nil => simp
  | cons c s ih =>
    rw [longestRun.go] at h
    split_ifs at h with hc
    · have := le_longestRun_go q (0 + 1) s
      omega
    · simp only [List.mem_cons, not_or]
      exact ⟨Ne.symm hc, ih (by omega)⟩

/-- A text between single quotes on one line has none, and nothing that needs a code. -/
theorem of_formOf_literal (h : formOf s = .literal) :
    s ≠ [] ∧ ∀ c ∈ s, c ≠ '\'' ∧ isPlain c = true := by
  refine ⟨?_, ?_⟩
  · rintro rfl
    cases h
  · simp only [formOf] at h
    split_ifs at h with hbasic hliteral
    simp only [Bool.and_eq_true, Bool.not_eq_true', decide_eq_true_eq] at hliteral
    obtain ⟨⟨hcode, hsingle⟩, hlines⟩ := hliteral
    intro c hc
    refine ⟨ne_of_mem_of_not_mem hc (not_mem_of_longestRun_eq_zero hsingle), ?_⟩
    refine isPlain_of_not_isCoded ?_ ?_
    · exact Bool.eq_false_iff.2 (List.any_eq_false.1 hcode c hc)
    · rintro rfl
      simp [hc] at hlines

/-- A text between triple single quotes has at most two in a row, and nothing that needs a code. -/
theorem of_formOf_literalLines (h : formOf s = .literalLines) :
    longestRun '\'' s ≤ 2 ∧ ∀ c ∈ s, isCoded c = false := by
  simp only [formOf] at h
  split_ifs at h with hbasic hliteral hbasicLines hliteralLines
  simp only [Bool.and_eq_true, Bool.not_eq_true', decide_eq_true_eq] at hliteralLines
  obtain ⟨hcode, hsingle⟩ := hliteralLines
  exact ⟨hsingle, fun c hc => Bool.eq_false_iff.2 (List.any_eq_false.1 hcode c hc)⟩

theorem quoted_basic (rest : List Char) (h : ∀ more, rest ≠ '"' :: '"' :: more) :
    quoted ('"' :: rest) = asString (basicBody false .inText rest) := by
  rw [quoted.eq_def]
  split <;> simp_all [quotedLine]

theorem quoted_literal (rest : List Char) (h : ∀ more, rest ≠ '\'' :: '\'' :: more) :
    quoted ('\'' :: rest) = asString (literalBody false rest) := by
  rw [quoted.eq_def]
  split <;> simp_all [quotedLine]

/-- The line feed after the opening quotes does not count, and there is one if the text has one. -/
theorem dropLineEnd_opening (s rest : List Char)
    (h : '\n' ∉ s → ∃ d ds, rest = d :: ds ∧ d ≠ '\n' ∧ d ≠ '\r') :
    dropLineEnd ((if s.contains '\n' then ['\n'] else []) ++ rest) = rest := by
  by_cases hs : '\n' ∈ s
  · simp [hs, dropLineEnd]
  · obtain ⟨d, ds, rfl, hn, hr⟩ := h hs
    rw [if_neg (by simpa using hs), List.nil_append, dropLineEnd]
    · simp [hn]
    · simp [hr]

theorem linesText_eq_cons (hline : '\n' ∉ s) (rest : List Char) :
    ∃ d ds, linesText 0 s ++ '"' :: rest = d :: ds ∧ d ≠ '\n' ∧ d ≠ '\r' := by
  cases s with
  | nil => exact ⟨_, _, rfl, by decide, by decide⟩
  | cons e s =>
    obtain ⟨he, -⟩ : e ≠ '\n' ∧ '\n' ∉ s := by simpa [eq_comm] using hline
    by_cases hquote : e = '"'
    · subst hquote
      exact ⟨'"', linesText 1 s ++ '"' :: rest, by simp [linesText], by decide, by decide⟩
    · obtain ⟨d, ds, hescape, hd⟩ := escape_eq_cons e
      refine ⟨d, ds ++ (linesText 0 s ++ '"' :: rest), by simp [linesText, hquote, he, hescape], ?_⟩
      rcases hd with rfl | ⟨rfl, hr⟩
      · decide
      · exact ⟨he, hr⟩

theorem basicText_ne (hc : c ≠ '"') (s rest more : List Char) :
    basicText s ++ '"' :: c :: rest ≠ '"' :: '"' :: more := by
  cases s with
  | nil => simp [basicText, hc]
  | cons e s =>
    rw [basicText, List.flatMap_cons, ← basicText]
    split_ifs with hquote hline
    · simp
    · simp
    · obtain ⟨d, ds, hescape, rfl | ⟨rfl, -⟩⟩ := escape_eq_cons e
      · simp [hescape]
      · simp [hescape, hquote]

/-- **A text in its form is read back.** -/
theorem quoted_string (hdouble : c ≠ '"') (hsingle : c ≠ '\'') (text : String) (rest : List Char) :
    quoted (string text ++ c :: rest) = some (text, c :: rest) := by
  have hasString : asString (some (text.toList, c :: rest)) = some (text, c :: rest) := by
    simp [asString]
  simp only [string]
  cases hform : formOf text.toList with
  | basic =>
    have hread := basicBody_basicText text.toList (c :: rest)
    have hquoted := quoted_basic _ (basicText_ne hdouble text.toList rest)
    simpa [hread, hasString] using hquoted
  | literal =>
    obtain ⟨hne, hplain⟩ := of_formOf_literal hform
    have hread := literalBody_plain hplain (c :: rest)
    obtain ⟨d, ds, hd⟩ := List.exists_cons_of_ne_nil hne
    have hquoted := quoted_literal (text.toList ++ '\'' :: c :: rest) fun more => by
      simp [hd, (hplain d (by simp [hd])).1]
    simpa [hread, hasString] using hquoted
  | basicLines =>
    have hread := basicBody_linesText (n := 0) (by decide) hdouble text.toList rest
    have hdrop := dropLineEnd_opening text.toList _ fun hline =>
      linesText_eq_cons hline ('"' :: '"' :: c :: rest)
    simp only [List.replicate_zero, List.nil_append] at hread
    simp only [overLines, List.append_assoc, List.cons_append, List.nil_append, quoted]
    rw [hdrop, hread, hasString]
  | literalLines =>
    obtain ⟨hrun, hcode⟩ := of_formOf_literalLines hform
    have hread := literalBody_lines (n := 0) hcode hrun hsingle rest
    have hdrop := dropLineEnd_opening text.toList
      (text.toList ++ '\'' :: '\'' :: '\'' :: c :: rest) fun hline => by
        cases hs : text.toList with
        | nil => exact ⟨_, _, rfl, by decide, by decide⟩
        | cons d ds =>
          have hd : d ∈ text.toList := by simp [hs]
          refine ⟨d, _, rfl, ne_of_mem_of_not_mem hd hline, ?_⟩
          rintro rfl
          exact absurd (hcode _ hd) (by decide)
    simp only [List.replicate_zero, List.nil_append] at hread
    simp only [overLines, List.append_assoc, List.cons_append, List.nil_append, quoted]
    rw [hdrop, hread, hasString]

end SourceCoding.Toml
