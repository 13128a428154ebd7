import SourceCoding.Proofs.TomlString
import SourceCoding.Proofs.Unambiguous
import SourceCoding.Report
import SourceCoding.Yaml.Scalar

/-!
# Escapes taken back

Between double quotes JSON and YAML write a character as it is or after a backslash, by a letter or
by its code. One reader takes back what either of them writes for a character, so a text between
double quotes is unambiguous, whatever comes after the closing quote.

## Main definitions

* `readEscaped`: the character that is written first, and what is after it

## Main results

* `Json.readEscaped_escape`, `Yaml.readEscaped_escape`: what is written for a character is read as
  that character
* `Json.unambiguous_string`, `Yaml.unambiguous_double`: texts between double quotes
-/

namespace SourceCoding

open Toml (coded? hexValue? hexValue?_hexDigit)

variable {c d e : Char} {rest : List Char}

/-- The character that a letter stands for after a backslash. -/
def lettered? : Char → Option Char
  | '0' => some '\x00'
  | 'a' => some '\x07'
  | 'b' => some '\x08'
  | 't' => some '\t'
  | 'n' => some '\n'
  | 'v' => some '\x0b'
  | 'f' => some '\x0c'
  | 'r' => some '\r'
  | 'e' => some '\x1b'
  | '"' => some '"'
  | '\\' => some '\\'
  | 'N' => some '\x85'
  | 'L' => some '\u2028'
  | 'P' => some '\u2029'
  | _ => none

/-- **The character that is written first**, and what is after it. -/
def readEscaped : List Char → Option (Char × List Char)
  | [] => none
  | '\\' :: 'x' :: a :: b :: rest => (coded? [a, b]).map (·, rest)
  | '\\' :: 'u' :: a :: b :: c :: d :: rest => (coded? [a, b, c, d]).map (·, rest)
  | '\\' :: 'U' :: a :: b :: c :: d :: e :: f :: g :: h :: rest =>
    (coded? [a, b, c, d, e, f, g, h]).map (·, rest)
  | '\\' :: d :: rest => (lettered? d).map (·, rest)
  | c :: rest => some (c, rest)

theorem readEscaped_plain (h : c ≠ '\\') : readEscaped (c :: rest) = some (c, rest) := by
  rw [readEscaped.eq_def]
  simp [h]

theorem readEscaped_letter (h : lettered? d = some e) :
    readEscaped ('\\' :: d :: rest) = some (e, rest) := by
  -- The letters before a code are not among those that stand for a character.
  unfold lettered? at h
  split at h <;> cases h <;> rw [readEscaped.eq_def] <;> simp [lettered?]

theorem readEscaped_two {a b : Char} (h : coded? [a, b] = some e) :
    readEscaped ('\\' :: 'x' :: a :: b :: rest) = some (e, rest) := by
  simp [readEscaped, h]

theorem readEscaped_four {a b : Char} (h : coded? [a, b, c, d] = some e) :
    readEscaped ('\\' :: 'u' :: a :: b :: c :: d :: rest) = some (e, rest) := by
  simp [readEscaped, h]

theorem readEscaped_eight {a₁ a₂ a₃ a₄ a₅ a₆ a₇ a₈ : Char}
    (h : coded? [a₁, a₂, a₃, a₄, a₅, a₆, a₇, a₈] = some e) :
    readEscaped ('\\' :: 'U' :: a₁ :: a₂ :: a₃ :: a₄ :: a₅ :: a₆ :: a₇ :: a₈ :: rest) =
      some (e, rest) := by
  simp [readEscaped, h]

/-! ## Codes -/

/-- The digits of a number below sixteen, in lower case. -/
theorem hexValue?_digitChar : ∀ n < 16, hexValue? (Nat.digitChar n) = some n := by
  decide

/-- **The digits of the code of a character** stand for that character, in either case. -/
theorem coded?_map {digit : Nat → Char} {values : List Nat}
    (hdigit : ∀ n < 16, hexValue? (digit n) = some n) (hvalues : ∀ n ∈ values, n < 16)
    (hcode : values.foldl (fun n k => n * 16 + k) 0 = c.toNat) :
    coded? (values.map digit) = some c := by
  have hfold : ∀ n, (values.map digit).foldlM (fun n d => (hexValue? d).map (n * 16 + ·)) n =
      some (values.foldl (fun n k => n * 16 + k) n) := by
    clear hcode
    induction values with
    | nil => exact fun n => rfl
    | cons k values ih =>
      rw [List.forall_mem_cons] at hvalues
      intro n
      rw [List.map_cons, List.foldlM_cons, hdigit k hvalues.1]
      exact ih hvalues.2 _
  have hvalid : c.toNat.isValidChar := c.valid
  simp [coded?, hfold, hcode, hvalid]

/-! ## Texts between double quotes -/

/-- **A text between double quotes** is unambiguous, if a reader takes back what is written for a
character, and if that is not a mere quote for a quote. -/
theorem unambiguous_quoted {escape : Char → List Char}
    (hread : ∀ c rest, readEscaped (escape c ++ rest) = some (c, rest))
    (hquote : escape '"' ≠ ['"']) :
    Unambiguous (fun _ : List Char => True) (fun s => '"' :: (s.flatMap escape ++ ['"']))
      (fun _ => True) := by
  have hchar : Unambiguous (fun _ => True) escape (fun _ => True) :=
    .of_reader fun c rest _ _ => hread c rest
  have hend : ∀ u c rest, '"' :: u ≠ escape c ++ rest := by
    intro u c rest heq
    have hfirst : some ('"', u) = some (c, rest) := by
      rw [← hread c rest, ← heq, readEscaped_plain (by decide)]
    obtain ⟨rfl, rfl⟩ := Prod.mk.inj (Option.some.inj hfirst)
    exact hquote (List.append_cancel_right heq.symm)
  have hchars := hchar.flatMap fun _ _ _ => trivial
  exact ((hchars.closed_by ['"'] fun u _ => ⟨trivial, fun c rest _ => hend u c rest⟩).led_by
    ['"']).among fun _ _ _ _ => trivial

namespace Json

/-- **What JSON writes for a character is read as that character.** -/
theorem readEscaped_escape (c : Char) (rest : List Char) :
    readEscaped (escape c ++ rest) = some (c, rest) := by
  unfold escape
  split_ifs with hquote hslash hb ht hn hf hr hcode
  · subst hquote
    exact readEscaped_letter rfl
  · subst hslash
    exact readEscaped_letter rfl
  · exact hb ▸ readEscaped_letter rfl
  · exact ht ▸ readEscaped_letter rfl
  · exact hn ▸ readEscaped_letter rfl
  · exact hf ▸ readEscaped_letter rfl
  · exact hr ▸ readEscaped_letter rfl
  · have hcoded : coded? ([0, 0, c.toNat / 16, c.toNat % 16].map Nat.digitChar) = some c :=
      coded?_map hexValue?_digitChar (by simp; omega) (by simp; omega)
    exact readEscaped_four hcoded
  · exact readEscaped_plain hslash

/-- **A text in quotes is unambiguous** in JSON. -/
theorem unambiguous_string : Unambiguous (fun _ => True) string (fun _ => True) :=
  (unambiguous_quoted readEscaped_escape (by decide)).text

end Json

namespace Yaml

theorem readEscaped_escapeCode (c : Char) (rest : List Char) :
    readEscaped (escapeCode c.toNat ++ rest) = some (c, rest) := by
  have hlt : c.toNat < 0x110000 := by
    have hvalid : c.toNat.isValidChar := c.valid
    unfold Nat.isValidChar at hvalid
    omega
  unfold escapeCode
  split_ifs with htwo hfour
  · have hcoded : coded? ([c.toNat / 16, c.toNat % 16].map hexDigit) = some c :=
      coded?_map hexValue?_hexDigit (by simp; omega) (by simp; omega)
    exact readEscaped_two hcoded
  · have hcoded : coded? ([c.toNat / 4096, c.toNat / 256 % 16, c.toNat / 16 % 16,
        c.toNat % 16].map hexDigit) = some c :=
      coded?_map hexValue?_hexDigit (by simp; omega) (by simp; omega)
    exact readEscaped_four hcoded
  · have hcoded : coded? ([0, 0, c.toNat / 1048576, c.toNat / 65536 % 16, c.toNat / 4096 % 16,
        c.toNat / 256 % 16, c.toNat / 16 % 16, c.toNat % 16].map hexDigit) = some c :=
      coded?_map hexValue?_hexDigit (by simp; omega) (by simp; omega)
    exact readEscaped_eight hcoded

/-- **What YAML writes for a character is read as that character.** -/
theorem readEscaped_escape (c : Char) (rest : List Char) :
    readEscaped (escape c ++ rest) = some (c, rest) := by
  unfold escape
  split_ifs with h
  · have hslash : c ≠ '\\' := by
      rintro rfl
      exact absurd h (by decide)
    exact readEscaped_plain hslash
  · split
    any_goals exact readEscaped_letter rfl
    exact readEscaped_escapeCode c rest

/-- **A text in double quotes is unambiguous** in YAML. -/
theorem unambiguous_double : Unambiguous (fun _ => True) double (fun _ => True) :=
  unambiguous_quoted readEscaped_escape (by decide)

end Yaml

end SourceCoding
