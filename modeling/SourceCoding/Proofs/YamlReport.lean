import SourceCoding.Proofs.YamlScalar
import SourceCoding.Report

/-!
# YAML reports are unambiguous

A YAML document has no closing marks: what a value is made of goes on as long as the lines are
indented, or start with a dash where the value is a list. The name of the next field does neither,
so it ends the value before it. This rests on names of letters, digits and underscores.

## Main definitions

* `Yaml.IsName`, `Yaml.Named`: names that need no quotes, and values with such names
* `Yaml.PastText`, `Yaml.PastList`: what is ahead of a text or a row, and of a list
* `Yaml.value`: what is written after the name of a field

## Main results

* `Yaml.unambiguous_row`, `Yaml.unambiguous_sequence`: rows and lists are unambiguous
* `Yaml.unambiguous_value`: so are the values of fields of one kind
* `Yaml.document_inj`: a document tells its record, if it is known what its fields are
-/

namespace SourceCoding.Yaml

open Unambiguous (PastClass)

variable {α : Type} {p : α → Prop} {write : α → List Char} {n : Nat} {c : Char}
  {s u v rest : List Char} {name : String}

/-! ## What is ahead -/

/-- The next line is neither indented nor empty. -/
def PastText (u : List Char) : Prop := ∀ c ∈ u.head?, c ≠ ' ' ∧ isBreak c = false

/-- The next line is neither indented nor empty, and no item of a list. -/
def PastList (u : List Char) : Prop := PastText u ∧ u.head? ≠ some '-'

theorem pastText_cons (hspace : c ≠ ' ') (hbreak : isBreak c = false) (u : List Char) :
    PastText (c :: u) := by
  simpa [PastText] using ⟨hspace, hbreak⟩

theorem PastText.ends (h : PastText u) (hn : 0 < n) : Ends n (fun c => [c]) true u := by
  rintro c rest rfl
  obtain ⟨n, rfl⟩ := Nat.exists_eq_succ_of_ne_zero (Nat.ne_of_gt hn)
  cases hc : isBreak c with
  | true =>
    rw [unit_of_break hc] at h
    exact absurd (h c rfl).2 (by simp [hc])
  | false =>
    rw [unit_of_not_break hc] at h
    exact (h ' ' rfl).1 rfl

/-! ## Names -/

/-- A character of a name. -/
def isNameChar (c : Char) : Bool := c.isAlphanum || c = '_'

/-- **A name that needs no quotes.** -/
def IsName (name : String) : Prop := name.toList ≠ [] ∧ name.toList.all isNameChar = true

instance (name : String) : Decidable (IsName name) := inferInstanceAs (Decidable (_ ∧ _))

theorem IsName.of_mem (h : IsName name) : ∀ c ∈ name.toList, isNameChar c = true :=
  List.all_eq_true.1 h.2

theorem isNameChar_ne {d : Char} (h : isNameChar c = true) (hd : isNameChar d = false) : c ≠ d := by
  rintro rfl
  exact absurd h (by simp [hd])

theorem IsName.exists_head (h : IsName name) :
    ∃ c rest, name.toList = c :: rest ∧ isNameChar c = true := by
  obtain ⟨c, rest, hname⟩ := List.exists_cons_of_ne_nil h.1
  exact ⟨c, rest, hname, h.of_mem c (by simp [hname])⟩

/-- What starts with a name is no part of the value before it. -/
theorem IsName.pastList (h : IsName name) (u : List Char) : PastList (name.toList ++ u) := by
  obtain ⟨c, rest, hname, hc⟩ := h.exists_head
  rw [hname]
  have hbreak : isBreak c = false := by
    simp only [isBreak, Bool.or_eq_false_iff, decide_eq_false_iff_not]
    refine ⟨⟨⟨⟨?_, ?_⟩, ?_⟩, ?_⟩, ?_⟩ <;> exact isNameChar_ne hc (by decide)
  refine ⟨pastText_cons (isNameChar_ne hc (by decide)) hbreak _, ?_⟩
  simpa using isNameChar_ne hc (by decide)

/-- A name and a colon are unambiguous. -/
theorem unambiguous_name (after : List Char) :
    Unambiguous IsName (fun name => name.toList ++ ':' :: after) (fun _ => True) := by
  have hname : Unambiguous IsName String.toList (PastClass isNameChar) :=
    .of_class (fun name h => h.of_mem) fun _ _ _ _ h => String.toList_inj.1 h
  exact hname.closed_by (':' :: after) fun u _ => Unambiguous.pastClass_cons (by decide) _

/-! ## Rows -/

/-- **A named text is unambiguous** after what leads its line. -/
theorem unambiguous_textField (lead : String) (indent : Nat) :
    Unambiguous (fun f : String × String => IsName f.1)
      (fun f => textField lead indent f.1 f.2) (Ends (indent + 2) (fun c => [c]) true) := by
  have htext : Unambiguous (fun _ => True) (fun value : String => scalar (indent + 2) value.toList)
      (Ends (indent + 2) (fun c => [c]) true) := (unambiguous_scalar (by omega)).text
  have hfield := ((unambiguous_name [' ']).pair (fun _ _ => htext) fun _ _ _ _ _ _ =>
    trivial).led_by lead.toList
  exact hfield.of_image (f := id) fun f hf => ⟨f, ⟨hf, trivial⟩, rfl, by
    simp [textField, List.append_assoc]⟩

/-- The next field of a row is not indented as far as a block in the row. -/
theorem ends_textField {f : String × String} (h : IsName f.1) (u : List Char) :
    Ends 4 (fun c => [c]) true (textField "  " 2 f.1 f.2 ++ u) := by
  obtain ⟨c, rest, hname, hc⟩ := h.exists_head
  intro d more heq
  have hspace : c ≠ ' ' := isNameChar_ne hc (by decide)
  cases hd : isBreak d with
  | true =>
    have hne : d ≠ ' ' := by
      rintro rfl
      exact absurd hd (by decide)
    simp [textField, unit_of_break hd, hne.symm] at heq
  | false => simp [textField, unit_of_not_break hd, hname, List.replicate_succ, hspace] at heq

/-- **A row is unambiguous** before a line that is neither indented nor empty. -/
theorem unambiguous_row : Unambiguous (fun r => ∀ f ∈ r, IsName f.1) row PastText := by
  have hfurther : Unambiguous (fun fs : List (String × String) => ∀ f ∈ fs, IsName f.1)
      (List.flatMap fun f => textField "  " 2 f.1 f.2) PastText := by
    refine ((unambiguous_textField "  " 2).flatMap fun f u hf => ends_textField hf u).before
      fun u hu => ⟨hu.ends (by decide), ?_⟩
    rintro f rest - rfl
    exact (hu ' ' rfl).1 rfl
  have hrow := (unambiguous_textField "- " 2).pair (fun _ _ => hfurther) fun f fs u hf hfs hu => by
    cases fs with
    | nil => exact hu.ends (by decide)
    | cons g gs =>
      rw [List.flatMap_cons, List.append_assoc]
      exact ends_textField (hfs g List.mem_cons_self) _
  refine hrow.of_cons (fun _ _ => rfl) fun f fs u v hf heq => ?_
  obtain ⟨c, rest, hname, hc⟩ := hf.exists_head
  have hne : '\x7b' ≠ c := (isNameChar_ne hc (by decide)).symm
  simp [row, textField, hname, hne] at heq

/-! ## Values, fields and documents -/

/-- **A list after its key is unambiguous** before a line that is no item, if its items are
unambiguous and start with a dash. -/
theorem unambiguous_sequence (h : Unambiguous p write PastText)
    (hdash : ∀ a, p a → ∃ rest, write a = '-' :: rest) :
    Unambiguous (fun xs : List α => ∀ x ∈ xs, p x) (fun xs => sequence (xs.map write))
      PastList := by
  have hnext : ∀ a u, p a → PastText (write a ++ u) := by
    intro a u ha
    obtain ⟨rest, hrest⟩ := hdash a ha
    rw [hrest]
    exact pastText_cons (by decide) (by decide) _
  have hend : ∀ u, PastList u → ∀ a rest, p a → u ≠ write a ++ rest := by
    rintro u hu a rest ha rfl
    obtain ⟨more, hmore⟩ := hdash a ha
    exact hu.2 (by simp [hmore])
  have hitems : Unambiguous (fun xs : List α => ∀ x ∈ xs, p x) (List.flatMap write) PastList :=
    (h.flatMap hnext).before fun u hu => ⟨hu.1, hend u hu⟩
  intro xs ys u v hxs hys hu hv heq
  unfold sequence at heq
  simp only [List.map_eq_nil_iff, ← List.flatMap_def] at heq
  split_ifs at heq with hx hy hy
  · subst hx hy
    exact ⟨rfl, List.append_cancel_left heq⟩
  · simp at heq
  · simp at heq
  · exact hitems hxs hys hu hv (List.cons.inj heq).2

/-- **All names in a value** need no quotes. -/
def Named : Datum → Prop
  | .rows values => ∀ r ∈ values, ∀ f ∈ r, IsName f.1
  | _ => True

/-- What is written after the name of a field and a colon. -/
def value : Datum → List Char
  | .flag value => ' ' :: ((toString value).toList ++ ['\n'])
  | .count value => ' ' :: (Nat.toDigits 10 value ++ ['\n'])
  | .text value => ' ' :: scalar 2 value.toList
  | .texts values => sequence (values.map fun v => ['-', ' '] ++ scalar 2 v.toList)
  | .rows values => sequence (values.map row)

theorem field_eq (name : String) (d : Datum) : field name d = name.toList ++ [':'] ++ value d := by
  cases d <;> simp [field, value, textField]

/-- **The values of one kind are unambiguous** before a line that is no part of them. -/
theorem unambiguous_value (k : Datum.Kind) :
    Unambiguous (fun d : Datum => d.kind = k ∧ Named d) value PastList := by
  have htext : Unambiguous (fun _ => True) (fun text : String => scalar 2 text.toList) PastText :=
    (unambiguous_scalar (by decide)).text.before fun _ hu => hu.ends (by decide)
  cases k with
  | flag =>
    have h := (unambiguous_flag.closed_by ['\n'] fun u (_ : PastList u) =>
      Unambiguous.pastClass_cons (by decide) u).led_by [' ']
    exact .of_image (f := .flag) h fun | .flag b, _ => ⟨b, trivial, rfl, rfl⟩
  | count =>
    have h := (unambiguous_count.closed_by ['\n'] fun u (_ : PastList u) =>
      Unambiguous.pastClass_cons (by decide) u).led_by [' ']
    exact .of_image (f := .count) h fun | .count n, _ => ⟨n, trivial, rfl, rfl⟩
  | text =>
    have h := (htext.led_by [' ']).before fun u (hu : PastList u) => hu.1
    exact .of_image (f := .text) h fun | .text s, _ => ⟨s, trivial, rfl, rfl⟩
  | texts =>
    have h := unambiguous_sequence (htext.led_by ['-', ' ']) fun _ _ => ⟨_, rfl⟩
    exact .of_image (f := .texts) h fun | .texts xs, _ => ⟨xs, fun _ _ => trivial, rfl, rfl⟩
  | rows =>
    have hdash : ∀ r : List (String × String), (∀ f ∈ r, IsName f.1) →
        ∃ rest, row r = '-' :: rest := by
      intro r _
      cases r with
      | nil => exact ⟨_, rfl⟩
      | cons f fs => exact ⟨_, rfl⟩
    exact .of_image (f := .rows) (unambiguous_sequence unambiguous_row hdash) fun
      | .rows xs, h => ⟨xs, h.2, rfl, rfl⟩

/-- **A document tells its record**, if it is known of what kind its fields are and if all names
need no quotes. -/
theorem document_inj {r r' : Record} {schema : String → Datum.Kind} (hr : r.Follows schema)
    (hr' : r'.Follows schema) (hn : ∀ f ∈ r, IsName f.1 ∧ Named f.2)
    (hn' : ∀ f ∈ r', IsName f.1 ∧ Named f.2) (h : document r = document r') : r = r' := by
  have hfield : Unambiguous
      (fun f : String × Datum => IsName f.1 ∧ f.2.kind = schema f.1 ∧ Named f.2)
      (fun f => field f.1 f.2) PastList :=
    ((unambiguous_name []).pair (fun name _ => unambiguous_value (schema name)) fun _ _ _ _ _ _ =>
      trivial).of_image (f := id) fun f hf => ⟨f, hf, rfl, field_eq f.1 f.2⟩
  have hfields := hfield.flatMap fun f u hf => by
    rw [field_eq, List.append_assoc, List.append_assoc]
    exact hf.1.pastList _
  refine hfields.eq_of_eq ⟨⟨by simp [PastText], by simp⟩, fun f rest hf heq => ?_⟩
    (fun f hf => ⟨(hn f hf).1, hr f hf, (hn f hf).2⟩)
    (fun f hf => ⟨(hn' f hf).1, hr' f hf, (hn' f hf).2⟩) (String.ofList_injective h)
  simp [field_eq] at heq

end SourceCoding.Yaml
