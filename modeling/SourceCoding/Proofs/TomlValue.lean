import Mathlib.Tactic.SplitIfs
import SourceCoding.Proofs.TomlString
import SourceCoding.Report
import SourceCoding.Toml.Reader

/-!
# TOML values read back

A datum is written on the rest of a line, and the reader finds there the value that it stands for:
truth values and numbers without quotes, texts between them, lists of texts on one line or on
several.

## Main definitions

* `Datum.tomlValue`: the value as which a datum is read
* `Toml.ReadsAs`: what stands on the rest of a line is read as a value

## Main results

* `Toml.number?_toDigits`, `Toml.integer?_toDigits`: the digits of a number are read as that number
* `Toml.items_lines`: a list over several lines
* `Toml.readsAs_count`, `Toml.readsAs_flag`, `Toml.readsAs_text`, `Toml.readsAs_texts`: what is
  written for a datum is read as its value
-/

namespace SourceCoding

/-- The fields as which a row is read back. -/
def Toml.rowFields (row : List (String × String)) : Toml.Fields :=
  row.map fun (key, value) => (key, .text value)

/-- **The value as which a datum is read back.** Rows are tables, and no rows are an empty array. -/
def Datum.tomlValue : Datum → Toml.Value
  | .flag value => .boolean value
  | .count value => .integer value
  | .text value => .text value
  | .texts values => .array (values.map .text)
  | .rows [] => .array []
  | .rows values => .tables (values.map Toml.rowFields)

namespace Toml

variable {c : Char} {cs rest more : List Char} {n : Nat}

/-! ## Numbers -/

theorem digitValue?_of_isDigit (h : c.isDigit = true) :
    digitValue? 10 c = some (c.toNat - '0'.toNat) := by
  have hlt : c.toNat - '0'.toNat < 10 := by
    obtain ⟨-, hnine⟩ := Char.isDigit_iff_toNat.1 h
    have hrange : '0'.toNat = 48 ∧ '9'.toNat = 57 := by decide
    omega
  simp only [digitValue?, h, if_true]
  rw [if_pos hlt]

/-- Digits are read from left to right. -/
theorem foldlM_digitValue? (h : ∀ c ∈ cs, c.isDigit = true) (n : Nat) :
    cs.foldlM (fun n c => (digitValue? 10 c).map (n * 10 + ·)) n =
      some (Nat.ofDigitChars 10 cs n) := by
  induction cs generalizing n with
  | nil => rfl
  | cons c cs ih =>
    rw [List.foldlM_cons, digitValue?_of_isDigit (h c List.mem_cons_self), Option.map_some,
      Option.bind_eq_bind, Option.bind_some, ih fun d hd => h d (List.mem_cons_of_mem _ hd),
      Nat.mul_comm n 10]
    rfl

theorem isDigit_of_mem_toDigits (h : c ∈ Nat.toDigits 10 n) : c.isDigit = true :=
  Nat.isDigit_of_mem_toDigits (by decide) (by decide) h

/-- **The digits of a number** are read as that number. -/
theorem number?_toDigits (n : Nat) : number? 10 (Nat.toDigits 10 n) = some n := by
  rw [number?, if_neg Nat.toDigits_ne_nil,
    foldlM_digitValue? fun c hc => isDigit_of_mem_toDigits hc, Nat.ofDigitChars_ten_toDigits]

/-- A group of digits without underscores is these digits. -/
theorem grouped?_of_isDigit (h : ∀ c ∈ cs, c.isDigit = true) (hne : cs ≠ []) :
    grouped? Char.isDigit cs = some cs := by
  induction cs with
  | nil => exact absurd rfl hne
  | cons c cs ih =>
    have hc := h c List.mem_cons_self
    cases cs with
    | nil => simp [grouped?, hc]
    | cons d cs =>
      have hd : d ≠ '_' := by
        rintro rfl
        exact absurd (h '_' (by simp)) (by decide)
      rw [grouped?, if_pos hc, ih (fun e he => h e (List.mem_cons_of_mem _ he)) (by simp)]
      · rfl
      · exact hd

/-- A number does not start with a zero, unless it is zero. -/
theorem head?_toDigits (h : 0 < n) : (Nat.toDigits 10 n).head? ≠ some '0' := by
  induction n using Nat.strongRecOn with
  | ind n ih =>
    rw [Nat.toDigits_eq_if (by decide)]
    split_ifs with hn
    · simp [Nat.digitChar_eq_zero]
      omega
    · rw [List.head?_append, List.head?_eq_some_head Nat.toDigits_ne_nil, Option.some_or,
        ← List.head?_eq_some_head]
      exact ih (n / 10) (by omega) (by omega)

theorem isCanonical_toDigits (n : Nat) : isCanonical (Nat.toDigits 10 n) = true := by
  unfold isCanonical
  split
  · rename_i c cs hdigits
    by_cases hn : n < 10
    · have hlength := congrArg List.length hdigits
      simp [Nat.toDigits_of_lt_base hn] at hlength
    · exact absurd (by rw [hdigits]; rfl) (head?_toDigits (n := n) (by omega))
  · rfl

theorem signed_of_isDigit (h : ∀ c ∈ cs, c.isDigit = true) : signed cs = (false, cs) := by
  unfold signed
  split
  · exact absurd (h '-' List.mem_cons_self) (by decide)
  · exact absurd (h '+' List.mem_cons_self) (by decide)
  · rfl

theorem wholeNumber?_toDigits (n : Nat) : wholeNumber? (Nat.toDigits 10 n) = some (n : Int) := by
  have hdigits : ∀ c ∈ Nat.toDigits 10 n, c.isDigit = true := fun c hc => isDigit_of_mem_toDigits hc
  -- The marks of other radices are letters.
  have hmark : ∀ {c : Char} {cs}, Nat.toDigits 10 n = '0' :: c :: cs → c.isDigit = true := by
    intro c cs h
    exact hdigits c (by simp [h])
  unfold wholeNumber?
  split
  · rename_i h
    exact absurd (hmark h) (by decide)
  · rename_i h
    exact absurd (hmark h) (by decide)
  · rename_i h
    exact absurd (hmark h) (by decide)
  · simp [signed_of_isDigit hdigits, grouped?_of_isDigit hdigits Nat.toDigits_ne_nil,
      isCanonical_toDigits, number?_toDigits]

/-- **The digits of a number** are read as that integer, if it is in the range. -/
theorem integer?_toDigits (h : n < Nat.pow 2 63) :
    integer? (Nat.toDigits 10 n) = some (n : Int) := by
  have hrange : inRange n = true := by
    have hn : (n : Int) < Int.ofNat (Nat.pow 2 63) := Int.ofNat_lt.2 h
    rw [inRange, Bool.and_eq_true, decide_eq_true_eq, decide_eq_true_eq]
    exact ⟨Int.le_trans (by decide) (Int.natCast_nonneg n), Int.lt_trans hn (by decide)⟩
  rw [integer?, wholeNumber?_toDigits, Option.filter_some, if_pos hrange]

/-! ## Values on the rest of a line -/

/-- **What stands on the rest of a line is read as a value.** -/
def ReadsAs (written : List Char) (v : Value) : Prop :=
  ∀ rest, value depthLimit (skipBlanks (written ++ '\n' :: rest)) = some (v, '\n' :: rest)

theorem skipBlanks_cons (h : isBlank c = false) : skipBlanks (c :: rest) = c :: rest := by
  simp [skipBlanks, h]

/-- A value without quotes ends with its line. -/
theorem scalar_append (h : ∀ c ∈ cs, isScalarChar c = true) (rest : List Char) :
    scalar (cs ++ '\n' :: rest) = (scalar? cs).map (·, '\n' :: rest) := by
  have hchars : scalarChars (cs ++ '\n' :: rest) = (cs, '\n' :: rest) := by
    have htake : (cs ++ '\n' :: rest).takeWhile isScalarChar = cs := by
      rw [List.takeWhile_append_of_pos h]
      simp [isScalarChar]
    have hdrop : (cs ++ '\n' :: rest).dropWhile isScalarChar = '\n' :: rest := by
      rw [List.dropWhile_append_of_pos h]
      simp [isScalarChar]
    rw [scalarChars, htake, hdrop]
    split
    · simp_all
    · simp_all
  rw [scalar, hchars]

/-- A value that starts with a letter or a digit has no quotes. -/
theorem value_scalar (hc : c.isAlphanum = true) (depth : Nat) (rest : List Char) :
    value depth (c :: rest) = scalar (c :: rest) := by
  have hne : ∀ d : Char, d.isAlphanum = false → c ≠ d := by
    rintro d hd rfl
    simp [hc] at hd
  rw [value.eq_def]
  simp [hne '"' (by decide), hne '\'' (by decide), hne '[' (by decide), hne '\x7b' (by decide)]

theorem readsAs_scalar {v : Value} (hne : cs ≠ []) (hall : cs.all Char.isAlphanum = true)
    (hv : scalar? cs = some v) : ReadsAs cs v := by
  intro rest
  have h := List.all_eq_true.1 hall
  obtain ⟨c, s, rfl⟩ := List.exists_cons_of_ne_nil hne
  have hc := h c List.mem_cons_self
  have hblank : isBlank c = false := by
    rw [Bool.eq_false_iff]
    intro hb
    rcases (by simpa [isBlank] using hb : c = ' ' ∨ c = '\t') with rfl | rfl
    · exact absurd hc (by decide)
    · exact absurd hc (by decide)
  rw [List.cons_append, skipBlanks_cons hblank, value_scalar hc, ← List.cons_append,
    scalar_append fun d hd => by simp [isScalarChar, h d hd], hv]
  rfl

theorem readsAs_count (h : n < Nat.pow 2 63) : ReadsAs (Nat.toDigits 10 n) (.integer n) := by
  have hdigits : ∀ c ∈ Nat.toDigits 10 n, c.isDigit = true := fun c hc => isDigit_of_mem_toDigits hc
  refine readsAs_scalar Nat.toDigits_ne_nil (List.all_eq_true.2 fun c hc => ?_) ?_
  · simp [Char.isAlphanum, hdigits c hc]
  · have hword : ∀ word : String, word.toList.all Char.isDigit = false →
        Nat.toDigits 10 n ≠ word.toList := by
      intro word hword heq
      rw [← heq, List.all_eq_true.2 hdigits] at hword
      cases hword
    rw [scalar?, if_neg (hword "true" (by decide)), if_neg (hword "false" (by decide)),
      integer?_toDigits h]

theorem readsAs_flag (b : Bool) : ReadsAs (toString b).toList (.boolean b) := by
  cases b with
  | false => exact readsAs_scalar (by decide) (by decide) rfl
  | true => exact readsAs_scalar (by decide) (by decide) rfl

/-! ## Texts -/

theorem string_eq_cons (text : String) : ∃ q s, string text = q :: s ∧ (q = '"' ∨ q = '\'') := by
  simp only [string]
  cases formOf text.toList with
  | basic => exact ⟨_, _, rfl, .inl rfl⟩
  | literal => exact ⟨_, _, rfl, .inr rfl⟩
  | basicLines => exact ⟨_, _, rfl, .inl rfl⟩
  | literalLines => exact ⟨_, _, rfl, .inr rfl⟩

theorem value_string (hdouble : c ≠ '"') (hsingle : c ≠ '\'') (depth : Nat) (text : String)
    (rest : List Char) : value depth (string text ++ c :: rest) = some (.text text, c :: rest) := by
  have hquoted := quoted_string hdouble hsingle text rest
  obtain ⟨q, s, hq, hquote⟩ := string_eq_cons text
  rw [hq, List.cons_append] at hquoted ⊢
  rw [value.eq_def]
  simp only [hquote, if_true, hquoted, Option.map_some]

theorem readsAs_text (text : String) : ReadsAs (string text) (.text text) := by
  intro rest
  obtain ⟨q, s, hq, hquote⟩ := string_eq_cons text
  have hblank : isBlank q = false := by rcases hquote with rfl | rfl <;> decide
  have hvalue := value_string (c := '\n') (by decide) (by decide) depthLimit text rest
  rw [hq, List.cons_append] at hvalue ⊢
  rw [skipBlanks_cons hblank, hvalue]

/-! ## Lists of texts -/

variable {depth fuel : Nat}

theorem value_array (depth : Nat) (rest : List Char) : value (depth + 1) ('[' :: rest) =
    (items ']' (value depth) (rest.length + 1) rest).map fun (xs, rest) => (.array xs, rest) := by
  rw [value.eq_def]
  simp

/-- What is neither white space nor a comment is not passed over. -/
theorem skipTrivia_cons (hblank : isBlank c = false) (hline : c ≠ '\n' ∧ c ≠ '\r' ∧ c ≠ '#') :
    skipTrivia false (c :: rest) = some (c :: rest) := by
  rw [skipTrivia.eq_def]
  simp [hblank, hline]

theorem skipTrivia_line (cs : List Char) : skipTrivia false ('\n' :: cs) = skipTrivia false cs := by
  rw [skipTrivia.eq_def]
  simp

theorem skipTrivia_blank (cs : List Char) : skipTrivia false (' ' :: cs) = skipTrivia false cs := by
  rw [skipTrivia.eq_def]
  simp [isBlank]

theorem skipTrivia_string (text : String) (rest : List Char) :
    skipTrivia false (string text ++ rest) = some (string text ++ rest) := by
  obtain ⟨q, s, hq, hquote⟩ := string_eq_cons text
  rw [hq, List.cons_append]
  rcases hquote with rfl | rfl
  · exact skipTrivia_cons (by decide) (by decide)
  · exact skipTrivia_cons (by decide) (by decide)

/-- The end of a list. -/
theorem items_nil (h : skipTrivia false cs = some (']' :: rest)) :
    items ']' (value depth) (fuel + 1) cs = some ([], rest) := by
  rw [items, h]
  simp

/-- A text in a list, with what comes after it. -/
theorem items_text (hc : c ≠ '"' ∧ c ≠ '\'') {text : String}
    (hcs : skipTrivia false cs = some (string text ++ c :: rest)) :
    items ']' (value depth) (fuel + 1) cs = (do
      match ← skipTrivia false (c :: rest) with
      | ',' :: rest => do
        let (xs, rest) ← items ']' (value depth) fuel rest
        pure (.text text :: xs, rest)
      | c :: rest => if c = ']' then some ([.text text], rest) else none
      | [] => none) := by
  have hvalue := value_string hc.1 hc.2 depth text rest
  obtain ⟨q, s, hq, hquote⟩ := string_eq_cons text
  have hclosing : q ≠ ']' := by rcases hquote with rfl | rfl <;> decide
  rw [hq, List.cons_append] at hvalue hcs
  rw [items, hcs]
  show (if q = ']' then some ([], s ++ c :: rest) else _) = _
  rw [if_neg hclosing]
  exact congrArg (Option.bind · _) hvalue

/-- **A list on one line.** -/
theorem items_last (text : String) (rest : List Char) :
    items ']' (value depth) (fuel + 1) (string text ++ ']' :: rest) =
      some ([.text text], rest) := by
  rw [items_text (by decide) (skipTrivia_string text _), skipTrivia_cons (by decide) (by decide)]
  simp

/-- The line of a text in a list over several lines. -/
def itemLine (v : String) : List Char := "    ".toList ++ string v ++ [',', '\n']

theorem skipTrivia_itemLine (v : String) (cs : List Char) :
    skipTrivia false (itemLine v ++ cs) = some (string v ++ ',' :: '\n' :: cs) := by
  simp [itemLine, skipTrivia_blank, skipTrivia_string]

/-- **A list over several lines.** -/
theorem items_lines {values : List String} (hfuel : values.length < fuel) (rest : List Char) :
    items ']' (value depth) fuel ('\n' :: (values.flatMap itemLine ++ ']' :: rest)) =
      some (values.map .text, rest) := by
  induction values generalizing fuel with
  | nil =>
    obtain ⟨fuel, rfl⟩ := Nat.exists_eq_add_of_lt hfuel
    refine items_nil ?_
    rw [List.flatMap_nil, List.nil_append, skipTrivia_line,
      skipTrivia_cons (by decide) (by decide)]
  | cons v values ih =>
    obtain ⟨fuel, rfl⟩ : ∃ m, fuel = m + 1 := ⟨fuel - 1, by omega⟩
    have hcs : skipTrivia false ('\n' :: ((v :: values).flatMap itemLine ++ ']' :: rest)) =
        some (string v ++ ',' :: '\n' :: (values.flatMap itemLine ++ ']' :: rest)) := by
      rw [skipTrivia_line, List.flatMap_cons, List.append_assoc, skipTrivia_itemLine]
    rw [items_text (by decide) hcs, skipTrivia_cons (by decide) (by decide)]
    simp [ih (by simpa using hfuel)]

/-- Every text of a list has a line of its own. -/
theorem length_le_itemLines (values : List String) :
    values.length ≤ (values.flatMap itemLine).length := by
  induction values with
  | nil => simp
  | cons v values ih =>
    have hline : 0 < (itemLine v).length := List.length_pos_iff.2 (by simp [itemLine])
    rw [List.flatMap_cons, List.length_append, List.length_cons]
    omega

/-- **What is written for a list of texts is read as that list.** -/
theorem readsAs_texts (values : List String) :
    ReadsAs (arrayLines values) (.array (values.map .text)) := by
  intro rest
  have hread : ∀ {cs xs}, items ']' (value 79) (cs.length + 1) cs = some (xs, '\n' :: rest) →
      value depthLimit (skipBlanks ('[' :: cs)) = some (.array xs, '\n' :: rest) := by
    intro cs xs h
    rw [skipBlanks_cons (by decide), show depthLimit = 79 + 1 from rfl, value_array, h]
    rfl
  match values with
  | [] => exact hread (items_nil (skipTrivia_cons (by decide) (by decide)))
  | [v] =>
    have hlast := hread (items_last v ('\n' :: rest))
    simpa [arrayLines] using hlast
  | v :: w :: values =>
    have hlength := length_le_itemLines (v :: w :: values)
    have hwritten : arrayLines (v :: w :: values) ++ '\n' :: rest =
        '[' :: '\n' :: ((v :: w :: values).flatMap itemLine ++ ']' :: '\n' :: rest) := by
      show '[' :: '\n' :: ((v :: w :: values).flatMap itemLine ++ [']']) ++ '\n' :: rest = _
      simp
    -- There is fuel for every character of the list, and so for every line.
    rw [hwritten]
    refine hread (items_lines ?_ ('\n' :: rest))
    simp only [List.length_cons, List.length_append] at hlength ⊢
    omega

/-- Rows that have no tables are an empty list. -/
theorem readsAs_rows : ReadsAs ['[', ']'] (.array []) := readsAs_texts []

end Toml

end SourceCoding
