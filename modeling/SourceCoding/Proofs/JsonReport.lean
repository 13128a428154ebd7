import SourceCoding.Proofs.Escapes

/-!
# JSON reports are unambiguous

In a JSON document everything can be told from its first characters on: a text ends at its closing
quote, an item of a list or an object at a comma or at the end of its line, and a list or an object
at its closing bracket. Only an empty list does not tell of what it is a list.

## Main definitions

* `Json.PastItem`: what is ahead of an item

## Main results

* `Json.unambiguous_block`: items between brackets are unambiguous, if each of them is
* `Json.unambiguous_datum`: so are the values of fields of one kind
* `Json.document_inj`: a document tells its record, if it is known what its fields are
-/

namespace SourceCoding

namespace Json

open Unambiguous (PastClass)

variable {α : Type} {p : α → Prop} {write : α → List Char} {opening closing : Char} {level : Nat}

/-- What is ahead of an item: a comma, or the end of the line. -/
def PastItem (u : List Char) : Prop := ∃ rest, u = ',' :: rest ∨ u = '\n' :: rest

theorem PastItem.pastClass {q : Char → Bool} {u : List Char} (h : PastItem u)
    (hcomma : q ',' = false) (hline : q '\n' = false) : PastClass q u := by
  obtain ⟨rest, rfl | rfl⟩ := h
  · exact Unambiguous.pastClass_cons hcomma rest
  · exact Unambiguous.pastClass_cons hline rest

theorem intercalate_cons (x : List Char) (xs : List (List Char)) :
    [','].intercalate (x :: xs) = x ++ xs.flatMap (',' :: ·) := by
  induction xs generalizing x with
  | nil => simp
  | cons y xs ih => simp [ih]

/-- Items between brackets: the first one, the others after their commas, and the last line. -/
theorem block_cons (x : List Char) (xs : List (List Char)) :
    block opening closing level (x :: xs) =
      opening :: lineStart (level + 1) ++
        ((x ++ xs.flatMap fun y => ',' :: lineStart (level + 1) ++ y) ++
          (lineStart level ++ [closing])) := by
  rw [block, if_neg (by simp), List.map_cons, intercalate_cons]
  simp [List.flatMap_map, List.append_assoc]

/-- A first item and the others after their commas are unambiguous before the last line. -/
theorem unambiguous_items (h : Unambiguous p write PastItem) :
    Unambiguous (fun x : α × List α => p x.1 ∧ ∀ y ∈ x.2, p y)
      (fun x => write x.1 ++ x.2.flatMap fun y => ',' :: lineStart level ++ write y)
      (fun u => ∃ rest, u = '\n' :: rest) := by
  have hitem : Unambiguous p (fun x => ',' :: lineStart level ++ write x) PastItem :=
    h.led_by (',' :: lineStart level)
  have hitems : Unambiguous (fun xs : List α => ∀ x ∈ xs, p x)
      (List.flatMap fun x => ',' :: lineStart level ++ write x)
      (fun u => ∃ rest, u = '\n' :: rest) := by
    refine (hitem.flatMap fun _ _ _ => ⟨_, .inl rfl⟩).before ?_
    -- A line end is no comma, so no further item follows.
    rintro u ⟨rest, rfl⟩
    exact ⟨⟨rest, .inr rfl⟩, fun x _ _ heq => by simp at heq⟩
  refine h.pair (fun _ _ => hitems) fun x xs u _ _ hu => ?_
  obtain ⟨rest, rfl⟩ := hu
  cases xs with
  | nil => exact ⟨rest, .inr rfl⟩
  | cons y ys => exact ⟨_, .inl rfl⟩

/-- **Items between brackets are unambiguous**, if each of them is before a comma and before the end
of its line. -/
theorem unambiguous_block (h : Unambiguous p write PastItem) (hclosing : closing ≠ '\n') :
    Unambiguous (fun xs : List α => ∀ x ∈ xs, p x)
      (fun xs => block opening closing level (xs.map write)) (fun _ => True) := by
  have hitems : Unambiguous (fun x : α × List α => p x.1 ∧ ∀ y ∈ x.2, p y) (fun x =>
      opening :: lineStart (level + 1) ++
        ((write x.1 ++ x.2.flatMap fun y => ',' :: lineStart (level + 1) ++ write y) ++
          (lineStart level ++ [closing]))) (fun _ => True) :=
    ((unambiguous_items h).closed_by _ fun u _ => ⟨_, rfl⟩).led_by _
  refine hitems.of_cons (fun x xs => ?_) fun x xs u v _ => ?_
  · simp only [List.map_cons, block_cons, List.flatMap_map]
  · simp [block, lineStart, hclosing]

/-! ## Fields and documents -/

/-- A named item is unambiguous, if the items of this name are. -/
theorem unambiguous_field {q : String → α → Prop}
    (h : ∀ name, Unambiguous (q name) write PastItem) :
    Unambiguous (fun f : String × α => q f.1 f.2) (fun f => field f.1 (write f.2)) PastItem := by
  have hname : Unambiguous (fun _ => True) (fun name => string name ++ [':', ' '])
      (fun _ => True) := unambiguous_string.closed_by _ fun _ _ => trivial
  exact (hname.pair (fun name _ => h name) fun _ _ _ _ _ _ => trivial).among fun _ h => ⟨trivial, h⟩

/-- **A row is unambiguous.** -/
theorem unambiguous_row (level : Nat) :
    Unambiguous (fun _ => True) (row level) (fun _ => True) := by
  have hfield : Unambiguous (fun _ => True) (fun f : String × String => field f.1 (string f.2))
      PastItem := unambiguous_field fun _ => unambiguous_string.anywhere
  exact (unambiguous_block hfield (by decide)).among fun _ _ _ _ => trivial

/-- **A list is unambiguous**, if its items are. -/
theorem unambiguous_list (h : Unambiguous (fun _ => True) write PastItem) :
    Unambiguous (fun _ : List α => True) (fun xs => block '[' ']' 1 (xs.map write)) PastItem :=
  ((unambiguous_block h (by decide)).among fun _ _ _ _ => trivial).anywhere

/-- **The values of one kind are unambiguous.** -/
theorem unambiguous_datum (k : Datum.Kind) :
    Unambiguous (fun d : Datum => d.kind = k) datum PastItem := by
  cases k with
  | flag =>
    have h := unambiguous_flag.before fun _ (hu : PastItem _) =>
      hu.pastClass (by decide) (by decide)
    exact .of_image (f := .flag) h fun | .flag b, _ => ⟨b, trivial, rfl, rfl⟩
  | count =>
    have h := unambiguous_count.before fun _ (hu : PastItem _) =>
      hu.pastClass (by decide) (by decide)
    exact .of_image (f := .count) h fun | .count n, _ => ⟨n, trivial, rfl, rfl⟩
  | text =>
    exact .of_image (f := .text) unambiguous_string.anywhere fun
      | .text s, _ => ⟨s, trivial, rfl, rfl⟩
  | texts =>
    exact .of_image (f := .texts) (unambiguous_list unambiguous_string.anywhere) fun
      | .texts xs, _ => ⟨xs, trivial, rfl, rfl⟩
  | rows =>
    exact .of_image (f := .rows) (unambiguous_list (unambiguous_row 2).anywhere) fun
      | .rows xs, _ => ⟨xs, trivial, rfl, rfl⟩

/-- **A document tells its record**, if it is known of what kind its fields are. -/
theorem document_inj {r r' : Record} {schema : String → Datum.Kind} (hr : r.Follows schema)
    (hr' : r'.Follows schema) (h : document r = document r') : r = r' := by
  have hfield : Unambiguous (fun f : String × Datum => f.2.kind = schema f.1)
      (fun f => field f.1 (datum f.2)) PastItem :=
    unambiguous_field fun name => unambiguous_datum (schema name)
  exact (unambiguous_block hfield (by decide)).eq_of_eq trivial hr hr' (String.ofList_injective h)

end Json

end SourceCoding
