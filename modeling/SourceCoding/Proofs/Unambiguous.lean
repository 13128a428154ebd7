import Mathlib.Tactic.Common
import SourceCoding.Report

/-!
# Unambiguous writing

Values are written one after another into one text. A way of writing is unambiguous if the text
tells which value stands first and where it ends, whatever follows. What follows is hardly ever
arbitrary: the digits of a number end at a comma or at the end of a line, a block of lines ends
where the next line is not indented. So a way of writing comes with what may be ahead of it, and
when two of them are put together the second one has to be of that kind.

## Main definitions

* `Unambiguous`: the text tells the value and its end
* `Datum.kind`, `Record.Follows`: what kind of value each field of a record has

## Main results

* `Unambiguous.of_reader`: what a reader takes back is unambiguous
* `Unambiguous.of_class`: a run of characters of one class is unambiguous
* `Unambiguous.of_styles`: so are several styles that can be told from each other
* `Unambiguous.pair`, `Unambiguous.flatMap`, `Unambiguous.of_cons`: one value after another, any
  number of them, and lists that are written in another way if they are empty
-/

namespace SourceCoding

/-- **Values of some kind can be told from the text** they are written in, and so can the place
where they end, if what is ahead is as it may be. -/
def Unambiguous {α : Type} (p : α → Prop) (write : α → List Char) (ahead : List Char → Prop) :
    Prop :=
  ∀ ⦃a b : α⦄ ⦃u v : List Char⦄, p a → p b → ahead u → ahead v →
    write a ++ u = write b ++ v → a = b ∧ u = v

namespace Unambiguous

variable {α β ι : Type} {p : α → Prop} {write : α → List Char} {ahead : List Char → Prop}

theorem among {q : α → Prop} (h : Unambiguous p write ahead) (hp : ∀ a, q a → p a) :
    Unambiguous q write ahead :=
  fun _ _ _ _ ha hb hu hv => h (hp _ ha) (hp _ hb) hu hv

theorem before {ahead' : List Char → Prop} (h : Unambiguous p write ahead)
    (hahead : ∀ u, ahead' u → ahead u) : Unambiguous p write ahead' :=
  fun _ _ _ _ ha hb hu hv => h ha hb (hahead _ hu) (hahead _ hv)

theorem anywhere (h : Unambiguous p write fun _ => True) : Unambiguous p write ahead :=
  h.before fun _ _ => trivial

/-- A whole text tells the value. -/
theorem eq_of_eq (h : Unambiguous p write ahead) (hnil : ahead []) {a b : α} (ha : p a) (hb : p b)
    (heq : write a = write b) : a = b :=
  (h ha hb hnil hnil (by rw [heq])).1

/-! ## Ways of writing -/

/-- **What a reader takes back** is unambiguous. -/
theorem of_reader {read : List Char → Option (α × List Char)}
    (h : ∀ a u, p a → ahead u → read (write a ++ u) = some (a, u)) :
    Unambiguous p write ahead := by
  intro a b u v ha hb hu hv heq
  have hread : some (a, u) = some (b, v) := by rw [← h a u ha hu, ← h b v hb hv, heq]
  exact Prod.mk.inj (Option.some.inj hread)

/-- What is ahead of a run of characters of a class: another character, or nothing. -/
def PastClass (q : Char → Bool) (u : List Char) : Prop := ∀ c ∈ u.head?, q c = false

theorem pastClass_cons {q : Char → Bool} {c : Char} (h : q c = false) (u : List Char) :
    PastClass q (c :: u) := by
  simpa [PastClass] using h

theorem takeWhile_of_pastClass {q : Char → Bool} {s u : List Char} (hs : ∀ c ∈ s, q c = true)
    (hu : PastClass q u) : (s ++ u).takeWhile q = s := by
  rw [List.takeWhile_append_of_pos hs]
  cases u with
  | nil => simp
  | cons c u => simp [hu c rfl]

/-- **A run of characters of one class** is unambiguous before a character of another. -/
theorem of_class {q : Char → Bool} (hclass : ∀ a, p a → ∀ c ∈ write a, q c = true)
    (hwrite : ∀ a b, p a → p b → write a = write b → a = b) :
    Unambiguous p write (PastClass q) := by
  intro a b u v ha hb hu hv heq
  have hsame : write a = write b := by
    rw [← takeWhile_of_pastClass (hclass a ha) hu, heq, takeWhile_of_pastClass (hclass b hb) hv]
  rw [hsame] at heq
  exact ⟨hwrite a b ha hb hsame, List.append_cancel_left heq⟩

/-- **Styles that can be told from each other** are unambiguous together, if each of them is. -/
theorem of_styles {style : α → ι} {tell : List Char → ι}
    (htell : ∀ a u, p a → tell (write a ++ u) = style a)
    (h : ∀ i, Unambiguous (fun a => p a ∧ style a = i) write ahead) :
    Unambiguous p write ahead := by
  intro a b u v ha hb hu hv heq
  have hstyle : style b = style a := by rw [← htell a u ha, ← htell b v hb, heq]
  exact h (style a) ⟨ha, rfl⟩ ⟨hb, hstyle⟩ hu hv heq

/-- Values that are made of others are written as these are. -/
theorem of_image {q : β → Prop} {write' : β → List Char} {f : β → α}
    (h : Unambiguous q write' ahead) (hf : ∀ a, p a → ∃ x, q x ∧ f x = a ∧ write a = write' x) :
    Unambiguous p write ahead := by
  intro a b u v ha hb hu hv heq
  obtain ⟨x, hx, rfl, hwx⟩ := hf a ha
  obtain ⟨y, hy, rfl, hwy⟩ := hf b hb
  rw [hwx, hwy] at heq
  obtain ⟨rfl, rfl⟩ := h hx hy hu hv heq
  exact ⟨rfl, rfl⟩

/-- Texts are written as their characters are. -/
theorem text {write : List Char → List Char} (h : Unambiguous (fun _ => True) write ahead) :
    Unambiguous (fun _ => True) (fun text : String => write text.toList) ahead :=
  h.of_image (f := String.ofList) fun text _ => ⟨text.toList, trivial, String.ofList_toList, rfl⟩

/-! ## Ways of writing put together -/

/-- A fixed text comes first. -/
theorem led_by (h : Unambiguous p write ahead) (s : List Char) :
    Unambiguous p (fun a => s ++ write a) ahead := by
  intro a b u v ha hb hu hv heq
  rw [List.append_assoc, List.append_assoc] at heq
  exact h ha hb hu hv (List.append_cancel_left heq)

/-- A fixed text comes last. -/
theorem closed_by {ahead' : List Char → Prop} (h : Unambiguous p write ahead) (s : List Char)
    (hs : ∀ u, ahead' u → ahead (s ++ u)) : Unambiguous p (fun a => write a ++ s) ahead' := by
  intro a b u v ha hb hu hv heq
  rw [List.append_assoc, List.append_assoc] at heq
  obtain ⟨rfl, hrest⟩ := h ha hb (hs u hu) (hs v hv) heq
  exact ⟨rfl, List.append_cancel_left hrest⟩

/-- **One value after another**, where what may be the second depends on the first. -/
theorem pair {q : α → β → Prop} {write' : α → β → List Char} {ahead' : List Char → Prop}
    (h : Unambiguous p write ahead) (h' : ∀ a, p a → Unambiguous (q a) (write' a) ahead')
    (hnext : ∀ a x u, p a → q a x → ahead' u → ahead (write' a x ++ u)) :
    Unambiguous (fun x : α × β => p x.1 ∧ q x.1 x.2) (fun x => write x.1 ++ write' x.1 x.2)
      ahead' := by
  rintro ⟨a, x⟩ ⟨b, y⟩ u v ⟨ha, hx⟩ ⟨hb, hy⟩ hu hv heq
  rw [List.append_assoc, List.append_assoc] at heq
  obtain ⟨rfl, hrest⟩ := h ha hb (hnext a x u ha hx hu) (hnext b y v hb hy hv) heq
  obtain ⟨rfl, rfl⟩ := h' a ha hx hy hu hv hrest
  exact ⟨rfl, rfl⟩

/-- **Any number of values**, one after another, where no further value follows. -/
theorem flatMap (h : Unambiguous p write ahead) (hnext : ∀ a u, p a → ahead (write a ++ u)) :
    Unambiguous (fun xs : List α => ∀ x ∈ xs, p x) (List.flatMap write)
      (fun u => ahead u ∧ ∀ a rest, p a → u ≠ write a ++ rest) := by
  -- Induction on one of the lists: where it ends no value follows, so the other one ends there too.
  intro xs ys u v hxs hys hu hv heq
  have hahead : ∀ {zs : List α} {u}, (∀ z ∈ zs, p z) → ahead u → ahead (zs.flatMap write ++ u) := by
    intro zs u hzs hu
    cases zs with
    | nil => exact hu
    | cons z zs =>
      rw [List.flatMap_cons, List.append_assoc]
      exact hnext z _ (hzs z List.mem_cons_self)
  induction xs generalizing ys with
  | nil =>
    cases ys with
    | nil => exact ⟨rfl, heq⟩
    | cons y ys =>
      rw [List.flatMap_cons, List.append_assoc] at heq
      exact absurd heq (hu.2 y _ (hys y List.mem_cons_self))
  | cons x xs ih =>
    cases ys with
    | nil =>
      rw [List.flatMap_cons, List.append_assoc] at heq
      exact absurd heq.symm (hv.2 x _ (hxs x List.mem_cons_self))
    | cons y ys =>
      rw [List.forall_mem_cons] at hxs hys
      simp only [List.flatMap_cons, List.append_assoc] at heq
      obtain ⟨rfl, hrest⟩ := h hxs.1 hys.1 (hahead hxs.2 hu.1) (hahead hys.2 hv.1) heq
      obtain ⟨rfl, rfl⟩ := ih hxs.2 hys.2 hrest
      exact ⟨rfl, rfl⟩

/-- **Lists that are written in one way if they have items**, and in another if they have none. -/
theorem of_cons {write : List α → List Char} {write' : α × List α → List Char}
    (h : Unambiguous (fun x : α × List α => p x.1 ∧ ∀ y ∈ x.2, p y) write' ahead)
    (hcons : ∀ x xs, write (x :: xs) = write' (x, xs))
    (hnil : ∀ x xs u v, p x → write [] ++ u ≠ write' (x, xs) ++ v) :
    Unambiguous (fun xs => ∀ x ∈ xs, p x) write ahead := by
  intro xs ys u v hxs hys hu hv heq
  cases xs with
  | nil =>
    cases ys with
    | nil => exact ⟨rfl, List.append_cancel_left heq⟩
    | cons y ys =>
      rw [hcons] at heq
      exact absurd heq (hnil y ys u v (hys y List.mem_cons_self))
  | cons x xs =>
    cases ys with
    | nil =>
      rw [hcons] at heq
      exact absurd heq.symm (hnil x xs v u (hxs x List.mem_cons_self))
    | cons y ys =>
      rw [hcons, hcons] at heq
      obtain ⟨hpair, rfl⟩ :=
        h (List.forall_mem_cons.1 hxs) (List.forall_mem_cons.1 hys) hu hv heq
      obtain ⟨rfl, rfl⟩ := Prod.mk.inj hpair
      exact ⟨rfl, rfl⟩

end Unambiguous

/-! ## Values of fields -/

/-- The kind of a value. -/
inductive Datum.Kind where
  /-- Yes or no. -/
  | flag
  /-- A number. -/
  | count
  /-- A text. -/
  | text
  /-- A list of texts. -/
  | texts
  /-- A list of rows. -/
  | rows

/-- The kind of the value of a field. -/
def Datum.kind : Datum → Kind
  | .flag _ => .flag
  | .count _ => .count
  | .text _ => .text
  | .texts _ => .texts
  | .rows _ => .rows

/-- **Every field of a record has the kind that goes with its name.** Without it an empty list of
texts could not be told from one of rows. -/
def Record.Follows (r : Record) (schema : String → Datum.Kind) : Prop :=
  ∀ f ∈ r, f.2.kind = schema f.1

/-- Truth values are unambiguous before a character that is no letter. -/
theorem unambiguous_flag :
    Unambiguous (fun _ => True) (fun b : Bool => (toString b).toList)
      (Unambiguous.PastClass Char.isAlpha) :=
  .of_class (fun b _ => List.all_eq_true.1 (by cases b <;> decide))
    fun a b _ _ => by cases a <;> cases b <;> decide

/-- Numbers are unambiguous before a character that is no digit. -/
theorem unambiguous_count :
    Unambiguous (fun _ => True) (Nat.toDigits 10) (Unambiguous.PastClass Char.isDigit) := by
  refine .of_class (fun n _ c hc => Nat.isDigit_of_mem_toDigits (by decide) (by decide) hc)
    fun m n _ _ heq => ?_
  rw [← Nat.ofDigitChars_ten_toDigits (n := m), heq, Nat.ofDigitChars_ten_toDigits]

end SourceCoding
