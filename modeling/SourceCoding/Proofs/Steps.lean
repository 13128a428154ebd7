import Mathlib.Tactic.Common
import SourceCoding.Collection

/-!
# The steps of a path that is continued

A path that ends in a name goes on to that name from where the rest of it leads. Appending a
suffix changes that name only, and a child adds one name at the end; so a backup stands beside its
source, and an entry that a walk meets stands where the walk met it.

## Main results

* `Path.steps_append`: a suffix becomes part of the last name
* `Path.steps_descendant`: names below a root are further steps
* `Path.fileName?_of_steps`: a path whose last step is a name ends in that name
-/

namespace SourceCoding

namespace Path

/-! ## Segments -/

/-- Bytes without a slash become part of the last segment. -/
theorem segmentsOf_append {suffix : Bytes} (bs : Bytes) (h : Bytes.slash ∉ suffix) :
    ∃ init last, segmentsOf bs = init ++ [last] ∧
      segmentsOf (bs ++ suffix) = init ++ [last ++ suffix] := by
  induction bs with
  | nil => exact ⟨[], [], rfl, by simpa using segmentsOf_of_not_mem h⟩
  | cons b rest ih =>
    obtain ⟨init, last, h₁, h₂⟩ := ih
    by_cases hb : b = Bytes.slash
    · exact ⟨[] :: init, last, by simp [segmentsOf, hb, h₁], by simp [segmentsOf, hb, h₂]⟩
    · cases init with
      | nil => exact ⟨[], b :: last, by simp [segmentsOf, hb, h₁], by simp [segmentsOf, hb, h₂]⟩
      | cons s more =>
        exact ⟨(b :: s) :: more, last, by simp [segmentsOf, hb, h₁], by simp [segmentsOf, hb, h₂]⟩

/-- The last segment is empty only at the end of a path that ends in a slash, or is empty. -/
theorem getLast?_of_segmentsOf {bs : Bytes} {init : List Bytes}
    (h : segmentsOf bs = init ++ [[]]) : bs = [] ∨ bs.getLast? = some Bytes.slash := by
  rcases List.eq_nil_or_concat bs with rfl | ⟨front, b, rfl⟩
  · exact .inl rfl
  rw [List.concat_eq_append] at h ⊢
  refine .inr ?_
  by_contra hb
  have hb' : Bytes.slash ∉ [b] := by
    rintro hm
    rw [List.mem_singleton] at hm
    exact hb (by simp [hm])
  obtain ⟨init', last, -, h₂⟩ := segmentsOf_append front hb'
  have := List.append_inj_right' (h.symm.trans h₂) (by simp)
  simp at this

/-! ## Steps -/

theorem ofSegment?_ne_slash {s : Bytes} : Step.ofSegment? s ≠ some .slash := by
  unfold Step.ofSegment?
  split_ifs <;> simp

theorem ofSegment?_eq_name {s n : Bytes} :
    Step.ofSegment? s = some (.name n) ↔ s = n ∧ n ≠ [] ∧ n ≠ dot ∧ n ≠ dotDot := by
  unfold Step.ofSegment?
  split_ifs <;> grind

/-- The steps of a path without its final slash. -/
theorem filter_steps (p : Path) :
    p.steps.filter (· ≠ .slash) = (segmentsOf p.bytes).filterMap Step.ofSegment? := by
  have h : ∀ x ∈ (segmentsOf p.bytes).filterMap Step.ofSegment?, x ≠ .slash := by
    intro x hx hs
    obtain ⟨s, -, hs'⟩ := List.mem_filterMap.1 hx
    exact ofSegment?_ne_slash (hs ▸ hs')
  rw [steps, List.filter_append, List.filter_eq_self.2 (by simpa using h)]
  split <;> simp

/-- A path whose last step is a name ends in that name. -/
theorem segmentsOf_of_steps {p : Path} {front : List Step} {n : Bytes}
    (h : p.steps = front ++ [.name n]) :
    ∃ init, segmentsOf p.bytes = init ++ [n] ∧ front = init.filterMap Step.ofSegment? ∧
      p.bytes.getLast? ≠ some Bytes.slash ∧ n ≠ [] ∧ n ≠ dot ∧ n ≠ dotDot := by
  have hs : p.bytes.getLast? ≠ some Bytes.slash := by
    intro hs
    rw [steps, if_pos hs] at h
    have := List.append_inj_right' h (by simp)
    simp at this
  rw [steps, if_neg hs, List.append_nil] at h
  obtain ⟨init, last, hi, -⟩ := segmentsOf_append p.bytes (List.not_mem_nil (a := Bytes.slash))
  rw [hi, List.filterMap_append] at h
  have hlast : last ≠ [] := by
    rintro rfl
    rcases getLast?_of_segmentsOf hi with hb | hb
    · rw [hb] at hi
      have : init = [] := List.append_left_eq_self.1 (hi.symm.trans (by rfl : segmentsOf [] = [[]]))
      simp [this, Step.ofSegment?] at h
    · exact hs hb
  cases ho : Step.ofSegment? last with
  | none => simp [Step.ofSegment?, hlast] at ho; split_ifs at ho
  | some x =>
    rw [List.filterMap_cons_some ho, List.filterMap_nil] at h
    obtain ⟨hf, hx⟩ := List.append_inj' h rfl
    rw [List.singleton_inj] at hx
    rw [hx] at ho
    obtain ⟨rfl, hn⟩ := ofSegment?_eq_name.1 ho
    exact ⟨init, hi, hf.symm, hs, hn⟩

/-- **A suffix becomes part of the last name.** -/
theorem steps_append {p : Path} {front : List Step} {n suffix : Bytes}
    (h : p.steps = front ++ [.name n]) (hs : Bytes.slash ∉ suffix) :
    (p.append suffix).steps = front ++ [.name (n ++ suffix)] := by
  obtain ⟨init, hi, rfl, hl, hn, hd, hdd⟩ := segmentsOf_of_steps h
  obtain ⟨init', last, h₁, h₂⟩ := segmentsOf_append p.bytes hs
  obtain ⟨rfl, hlast⟩ := List.append_inj' (hi.symm.trans h₁) rfl
  obtain rfl := List.singleton_inj.1 hlast
  have hend : (p.append suffix).bytes.getLast? ≠ some Bytes.slash := by
    rw [bytes_append, List.getLast?_append]
    cases hg : suffix.getLast? with
    | none => simpa using hl
    | some b =>
      have hb : b ∈ suffix := List.mem_of_getLast? hg
      rintro ⟨⟩
      exact hs hb
  -- With a suffix the name does not become a dot or two dots.
  have hname : Step.ofSegment? (n ++ suffix) = some (.name (n ++ suffix)) := by
    refine ofSegment?_eq_name.2 ⟨rfl, by simp [hn], ?_, ?_⟩ <;>
      rcases n with _ | ⟨a, _ | ⟨b, _ | ⟨c, n⟩⟩⟩ <;> simp_all [dot, dotDot]
  rw [steps, if_neg hend, List.append_nil, bytes_append, h₂, List.filterMap_append,
    List.filterMap_cons_some hname, List.filterMap_nil]

/-- The last step of a path, if it is a name, is the name the path ends in. -/
theorem fileName?_of_steps {p : Path} {front : List Step} {n : Bytes}
    (h : p.steps = front ++ [.name n]) : p.fileName? = some n := by
  obtain ⟨init, hi, -, -, hn, hd, hdd⟩ := segmentsOf_of_steps h
  simp [fileName?, properSegments, hi, hn, hd, hdd]

/-! ## Names below a path -/

/-- A name that an entry may have is a step to that entry. -/
theorem ofSegment?_of_isName {n : Bytes} (h : isName n) :
    Step.ofSegment? n = some (.name n) := by
  simp only [isName, Bool.and_eq_true, decide_eq_true_eq] at h
  exact ofSegment?_eq_name.2 ⟨rfl, h.1.1.1.1.1, h.1.1.1.1.2, h.1.1.1.2⟩

theorem slash_not_mem_of_isName {n : Bytes} (h : isName n) : Bytes.slash ∉ n := by
  simp only [isName, Bool.and_eq_true, Bool.not_eq_true', List.contains_eq_mem,
    decide_eq_false_iff_not] at h
  exact h.1.1.2

/-- The path of a child is the parent, perhaps a slash, and the name. -/
theorem bytes_child (p : Path) (n : Bytes) :
    ∃ front, (p.child n).bytes = front ++ n ∧ (front = [] ∧ p.bytes = [] ∨
      ∃ init, front = init ++ [Bytes.slash] ∧
        (p.bytes = init ∨ p.bytes = init ++ [Bytes.slash])) := by
  unfold child
  split
  · exact ⟨p.bytes ++ [Bytes.slash], by simp, .inr ⟨p.bytes, rfl, .inl rfl⟩⟩
  · rename_i h
    refine ⟨p.bytes, rfl, ?_⟩
    rcases List.eq_nil_or_concat p.bytes with hb | ⟨init, b, hb⟩
    · exact .inl ⟨hb, hb⟩
    · have hs : b = Bytes.slash := by simpa [hb] using h
      rw [List.concat_eq_append, hs] at hb
      exact .inr ⟨init, hb, .inr hb⟩

/-- A segment that is no slash is a further step; a slash at the end of the parent does not
count. -/
theorem steps_child_of_segment {p : Path} {n : Bytes} {x : Step} (h : Step.ofSegment? n = some x)
    (hslash : Bytes.slash ∉ n) : (p.child n).steps = p.steps.filter (· ≠ .slash) ++ [x] := by
  have hn : (segmentsOf n).filterMap Step.ofSegment? = [x] := by
    rw [segmentsOf_of_not_mem hslash, List.filterMap_cons_some h, List.filterMap_nil]
  obtain ⟨front, hf, hp⟩ := bytes_child p n
  have hend : ¬ (p.child n).bytes.getLast? = some Bytes.slash := by
    rw [hf, List.getLast?_append]
    cases hg : n.getLast? with
    | none => simp [List.getLast?_eq_none_iff.1 hg, Step.ofSegment?] at h
    | some b =>
      rintro ⟨⟩
      exact hslash (List.mem_of_getLast? hg)
  rw [filter_steps, steps, if_neg hend, List.append_nil, hf]
  rcases hp with ⟨rfl, hb⟩ | ⟨init, rfl, hb⟩
  · simp [hb, segmentsOf, Step.ofSegment?, hn]
  · have hcut := segmentsOf_append_slash init []
    rw [List.append_assoc, List.singleton_append, segmentsOf_append_slash,
      List.filterMap_append, hn]
    rcases hb with hb | hb
    · rw [hb]
    · simp [hb, hcut, segmentsOf, Step.ofSegment?]

theorem steps_child {p : Path} {n : Bytes} (h : isName n) :
    (p.child n).steps = p.steps.filter (· ≠ .slash) ++ [.name n] :=
  steps_child_of_segment (ofSegment?_of_isName h) (slash_not_mem_of_isName h)

/-- **Names below a root are further steps**; a slash at the end of the root does not count. -/
theorem steps_descendant {root : Path} {names : Location} (hne : names ≠ [])
    (h : ∀ n ∈ names, isName n) :
    (root.descendant names).steps = root.steps.filter (· ≠ .slash) ++ names.map .name := by
  induction names generalizing root with
  | nil => exact absurd rfl hne
  | cons n names ih =>
    have hn := steps_child (p := root) (h n List.mem_cons_self)
    cases names with
    | nil => exact hn
    | cons m names =>
      have := @ih (root.child n) (by simp) fun k hk => h k (List.mem_cons_of_mem _ hk)
      rw [descendant, List.foldl_cons, ← descendant, this, hn]
      simp

@[simp] theorem descendant_nil (root : Path) : root.descendant [] = root := rfl

/-! ## Absolute paths -/

theorem isAbsolute_child {p : Path} (h : p.isAbsolute) (n : Bytes) : (p.child n).isAbsolute := by
  rcases p with ⟨_ | ⟨b, bs⟩⟩
  · simp [isAbsolute] at h
  · unfold child
    split <;> simpa [isAbsolute] using h

theorem isAbsolute_descendant {root : Path} (h : root.isAbsolute) (names : Location) :
    (root.descendant names).isAbsolute := by
  induction names generalizing root with
  | nil => exact h
  | cons n names ih => exact ih (isAbsolute_child h n)

/-- The bytes of a path below a root are those of the root, of the names, and slashes. -/
theorem mem_bytes_descendant {root : Path} {names : Location} {b : UInt8}
    (h : b ∈ (root.descendant names).bytes) :
    b ∈ root.bytes ∨ b = Bytes.slash ∨ ∃ n ∈ names, b ∈ n := by
  induction names generalizing root with
  | nil => exact .inl h
  | cons n names ih =>
    rcases ih h with hb | hb | ⟨m, hm, hb⟩
    · unfold child at hb
      split at hb <;> simp only [List.mem_append, List.mem_cons] at hb <;> grind
    · exact .inr (.inl hb)
    · exact .inr (.inr ⟨m, List.mem_cons_of_mem _ hm, hb⟩)

end Path

end SourceCoding
