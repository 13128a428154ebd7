import SourceCoding.Path

/-!
# File trees

A tree assigns an entry to each location: a file, a directory or a symbolic link. It is kept as
the listing that a depth-first walk in name order meets, so a walk is one pass over the listing.

## Main definitions

* `Entry`: a file, a directory or a symbolic link
* `Location`: the names that lead from the root to an entry
* `Tree`: a listing in order, with every entry in a directory
* `Tree.get?`: the entry at a location
* `Tree.put`, `Tree.erase`: one entry written, one entry removed with all beneath it

## Main results

* `Tree.mem_iff_get?`: the listing and the look-up say the same
* `Tree.ext_get?`: the entries determine the tree
* `Tree.get?_put`, `Tree.get?_erase`: one location changes and no other
-/

namespace SourceCoding

/-- What a location holds. -/
inductive Entry where
  /-- A regular file. -/
  | file (content : Bytes)
  /-- A directory; its entries are those of the tree one name further. -/
  | dir
  /-- A symbolic link. -/
  | link (target : Path)
  deriving DecidableEq, Repr

/-- **A location**: the names from the root of the tree to an entry. -/
abbrev Location := List Bytes

/-- The longest name that an entry may have. -/
def nameLimit : Nat := 255

/-- A name that an entry may have. -/
def isName (n : Bytes) : Bool :=
  n ≠ [] && n ≠ dot && n ≠ dotDot && !n.contains Bytes.slash && !n.contains 0 &&
    n.length ≤ nameLimit

/-- **A file tree.** The root is a directory and is not listed. -/
structure Tree where
  /-- Locations and their entries. -/
  listing : List (Location × Entry)
  /-- Parents come before children and siblings in the order of their names. -/
  sorted : listing.Pairwise fun a b => a.1 < b.1
  /-- Every location below the root consists of names. -/
  named : ∀ x ∈ listing, x.1 ≠ [] ∧ ∀ n ∈ x.1, isName n
  /-- Every entry stands in a directory. -/
  housed : ∀ x ∈ listing, x.1.dropLast = [] ∨ (x.1.dropLast, Entry.dir) ∈ listing

namespace Tree

@[ext] theorem ext {s t : Tree} (h : s.listing = t.listing) : s = t := by
  cases s
  cases t
  simp_all

instance : DecidableEq Tree := fun s t => decidable_of_iff (s.listing = t.listing)
  ⟨ext, fun h => h ▸ rfl⟩

/-- The tree that has only its root. -/
def empty : Tree := ⟨[], .nil, by simp, by simp⟩

instance : Inhabited Tree := ⟨empty⟩

/-- **The entry at a location.** -/
def get? (t : Tree) (l : Location) : Option Entry :=
  if l = [] then some .dir else (t.listing.find? fun x => x.1 = l).map Prod.snd

@[simp] theorem get?_nil (t : Tree) : t.get? [] = some .dir := rfl

/-- Two listed entries at one location are one. -/
theorem eq_of_mem {t : Tree} {l : Location} {e f : Entry} (he : (l, e) ∈ t.listing)
    (hf : (l, f) ∈ t.listing) : e = f := by
  have h := t.sorted
  generalize t.listing = xs at *
  induction xs with
  | nil => simp at he
  | cons x xs ih =>
    rw [List.pairwise_cons] at h
    rcases List.mem_cons.1 he with rfl | he' <;> rcases List.mem_cons.1 hf with hf' | hf'
    · exact (Prod.mk.inj hf').2.symm
    · exact absurd (h.1 _ hf') (List.lt_irrefl _)
    · subst hf'
      exact absurd (h.1 _ he') (List.lt_irrefl _)
    · exact ih he' hf' h.2

/-- **The listing and the look-up say the same.** -/
theorem mem_iff_get? {t : Tree} {l : Location} {e : Entry} (hl : l ≠ []) :
    (l, e) ∈ t.listing ↔ t.get? l = some e := by
  simp only [get?, hl, if_false, Option.map_eq_some_iff]
  constructor
  · intro h
    cases hf : t.listing.find? (fun x => x.1 = l) with
    | none =>
      rw [List.find?_eq_none] at hf
      exact absurd (hf _ h) (by simp)
    | some x =>
      have hx : x.1 = l := by simpa using List.find?_some hf
      have hm := List.mem_of_find?_eq_some hf
      obtain ⟨k, f⟩ := x
      subst hx
      exact ⟨_, rfl, eq_of_mem hm h⟩
  · rintro ⟨⟨k, f⟩, hx, rfl⟩
    have hk : k = l := by simpa using List.find?_some hx
    subst hk
    exact List.mem_of_find?_eq_some hx

theorem ne_nil_of_mem {t : Tree} {x : Location × Entry} (h : x ∈ t.listing) : x.1 ≠ [] :=
  (t.named x h).1

/-- Strictly sorted listings with the same members are equal. -/
theorem listing_unique {xs ys : List (Location × Entry)}
    (hx : xs.Pairwise fun a b => a.1 < b.1) (hy : ys.Pairwise fun a b => a.1 < b.1)
    (h : ∀ x, x ∈ xs ↔ x ∈ ys) : xs = ys := by
  induction xs generalizing ys with
  | nil =>
    cases ys with
    | nil => rfl
    | cons y ys => exact absurd ((h y).2 List.mem_cons_self) (by simp)
  | cons x xs ih =>
    cases ys with
    | nil => exact absurd ((h x).1 List.mem_cons_self) (by simp)
    | cons y ys =>
      rw [List.pairwise_cons] at hx hy
      have hxy : x = y := by
        rcases List.mem_cons.1 ((h x).1 List.mem_cons_self) with e | hm
        · exact e
        rcases List.mem_cons.1 ((h y).2 List.mem_cons_self) with e | hn
        · exact e.symm
        · exact absurd (List.lt_trans (hx.1 _ hn) (hy.1 _ hm)) (List.lt_irrefl _)
      subst hxy
      congr 1
      refine ih hx.2 hy.2 fun z => ?_
      constructor
      · intro hz
        rcases List.mem_cons.1 ((h z).1 (List.mem_cons_of_mem _ hz)) with rfl | hm
        · exact absurd (hx.1 _ hz) (List.lt_irrefl _)
        · exact hm
      · intro hz
        rcases List.mem_cons.1 ((h z).2 (List.mem_cons_of_mem _ hz)) with rfl | hm
        · exact absurd (hy.1 _ hz) (List.lt_irrefl _)
        · exact hm

/-- **The entries determine the tree.** -/
theorem ext_get? {s t : Tree} (h : ∀ l, s.get? l = t.get? l) : s = t := by
  refine ext (listing_unique s.sorted t.sorted ?_)
  rintro ⟨l, e⟩
  by_cases hl : l = []
  · exact ⟨fun hm => absurd hl (ne_nil_of_mem hm), fun hm => absurd hl (ne_nil_of_mem hm)⟩
  · rw [mem_iff_get? hl, mem_iff_get? hl, h]

/-- The parent of an entry is a directory. -/
theorem get?_dropLast {t : Tree} {l : Location} (h : t.get? l ≠ none) :
    t.get? l.dropLast = some .dir := by
  by_cases hl : l = []
  · simp [hl]
  obtain ⟨e, he⟩ := Option.ne_none_iff_exists'.1 h
  rcases t.housed _ ((mem_iff_get? hl).2 he) with hp | hp
  · simp_all
  · exact (mem_iff_get? (ne_nil_of_mem hp)).1 hp

/-- The last name of an entry is a name. -/
theorem isName_of_get? {t : Tree} {l : Location} {e : Entry} (h : t.get? l = some e) :
    ∀ n ∈ l, isName n := by
  by_cases hl : l = []
  · simp [hl]
  · exact (t.named _ ((mem_iff_get? hl).2 h)).2

/-! ## Writing one entry -/

/-- A listing with one entry written in its place. -/
def insertListing (l : Location) (e : Entry) :
    List (Location × Entry) → List (Location × Entry)
  | [] => [(l, e)]
  | x :: xs =>
    if l < x.1 then (l, e) :: x :: xs
    else if x.1 = l then (l, e) :: xs
    else x :: insertListing l e xs

theorem mem_insertListing {l : Location} {e : Entry} {xs : List (Location × Entry)}
    (h : xs.Pairwise fun a b => a.1 < b.1) {x : Location × Entry} :
    x ∈ insertListing l e xs ↔ x = (l, e) ∨ (x ∈ xs ∧ x.1 ≠ l) := by
  induction xs with
  | nil => simp [insertListing]
  | cons y ys ih =>
    rw [List.pairwise_cons] at h
    rw [insertListing]
    split
    · rename_i hlt
      have hne : ∀ z ∈ y :: ys, z.1 ≠ l := by
        intro z hz heq
        rcases List.mem_cons.1 hz with rfl | hz
        · exact absurd (heq ▸ hlt) (List.lt_irrefl _)
        · exact absurd (heq ▸ List.lt_trans hlt (h.1 _ hz)) (List.lt_irrefl _)
      constructor
      · intro hx
        rcases List.mem_cons.1 hx with rfl | hx
        · exact .inl rfl
        · exact .inr ⟨hx, hne _ hx⟩
      · rintro (rfl | ⟨hx, -⟩)
        · exact List.mem_cons_self
        · exact List.mem_cons_of_mem _ hx
    · split
      · rename_i heq
        have hne : ∀ z ∈ ys, z.1 ≠ l := by
          intro z hz hzl
          exact absurd ((hzl.trans heq.symm) ▸ h.1 _ hz) (List.lt_irrefl _)
        constructor
        · intro hx
          rcases List.mem_cons.1 hx with rfl | hx
          · exact .inl rfl
          · exact .inr ⟨List.mem_cons_of_mem _ hx, hne _ hx⟩
        · rintro (rfl | ⟨hx, hn⟩)
          · exact List.mem_cons_self
          · rcases List.mem_cons.1 hx with rfl | hx
            · exact absurd heq hn
            · exact List.mem_cons_of_mem _ hx
      · rename_i hne
        rw [List.mem_cons, ih h.2, List.mem_cons]
        constructor
        · rintro (rfl | rfl | ⟨hx, hn⟩)
          · exact .inr ⟨.inl rfl, hne⟩
          · exact .inl rfl
          · exact .inr ⟨.inr hx, hn⟩
        · rintro (rfl | ⟨rfl | hx, hn⟩)
          · exact .inr (.inl rfl)
          · exact .inl rfl
          · exact .inr (.inr ⟨hx, hn⟩)

theorem sorted_insertListing {l : Location} {e : Entry} {xs : List (Location × Entry)}
    (h : xs.Pairwise fun a b => a.1 < b.1) :
    (insertListing l e xs).Pairwise fun a b => a.1 < b.1 := by
  induction xs with
  | nil => simp [insertListing]
  | cons y ys ih =>
    have hp := h
    rw [List.pairwise_cons] at h
    rw [insertListing]
    split
    · rename_i hlt
      refine List.pairwise_cons.2 ⟨fun z hz => ?_, hp⟩
      rcases List.mem_cons.1 hz with rfl | hz
      · exact hlt
      · exact List.lt_trans hlt (h.1 _ hz)
    · rename_i hlt
      split
      · rename_i heq
        exact List.pairwise_cons.2 ⟨fun z hz => heq ▸ h.1 z hz, h.2⟩
      · rename_i hne
        refine List.pairwise_cons.2 ⟨fun z hz => ?_, ih h.2⟩
        rcases (mem_insertListing h.2).1 hz with rfl | ⟨hz, -⟩
        · have : y.1 < l := by grind
          exact this
        · exact h.1 z hz

/-- A location that can be written: a name in a directory, and no directory itself. -/
def Writable (t : Tree) (l : Location) : Prop :=
  (∃ n ∈ l.getLast?, isName n) ∧ t.get? l.dropLast = some .dir ∧ t.get? l ≠ some .dir

instance (t : Tree) (l : Location) : Decidable (t.Writable l) := by
  unfold Writable
  infer_instance

theorem Writable.ne_nil {t : Tree} {l : Location} (h : t.Writable l) : l ≠ [] := by
  rintro rfl
  simp [Writable] at h

theorem Writable.isName {t : Tree} {l : Location} (h : t.Writable l) : ∀ n ∈ l, isName n := by
  obtain ⟨⟨n, hn, hname⟩, hp, -⟩ := h
  obtain ⟨k, rfl⟩ := List.getLast?_eq_some_iff.1 (Option.mem_def.1 hn)
  rw [List.dropLast_concat] at hp
  intro m hm
  rw [List.mem_append, List.mem_singleton] at hm
  rcases hm with hm | rfl
  · exact isName_of_get? hp m hm
  · exact hname

/-- **One entry written**; a location that cannot be written leaves the tree as it is. -/
def put (t : Tree) (l : Location) (e : Entry) : Tree :=
  if h : t.Writable l then
    { listing := insertListing l e t.listing
      sorted := sorted_insertListing t.sorted
      named := by
        intro x hx
        rcases (mem_insertListing t.sorted).1 hx with rfl | ⟨hx, -⟩
        · exact ⟨h.ne_nil, h.isName⟩
        · exact t.named x hx
      housed := by
        intro x hx
        have hdir : ∀ k : Location, t.get? k = some .dir →
            k = [] ∨ (k, Entry.dir) ∈ insertListing l e t.listing := by
          intro k hk
          by_cases hk' : k = []
          · exact .inl hk'
          · refine .inr ((mem_insertListing t.sorted).2 (.inr ⟨(mem_iff_get? hk').2 hk, ?_⟩))
            rintro rfl
            exact h.2.2 hk
        rcases (mem_insertListing t.sorted).1 hx with rfl | ⟨hx, -⟩
        · exact hdir _ h.2.1
        · exact hdir _ (get?_dropLast (by rw [(mem_iff_get? (ne_nil_of_mem hx)).1 hx]; simp)) }
  else t

theorem put_of_not_writable {t : Tree} {l : Location} (h : ¬ t.Writable l) (e : Entry) :
    t.put l e = t := by
  simp [put, h]

/-- **One location changes and no other.** -/
theorem get?_put {t : Tree} {l : Location} (h : t.Writable l) (e : Entry) (k : Location) :
    (t.put l e).get? k = if k = l then some e else t.get? k := by
  by_cases hk : k = []
  · have := h.ne_nil
    simp [hk, Ne.symm this]
  apply Option.ext
  intro f
  rw [← mem_iff_get? hk]
  simp only [put, h, dif_pos]
  rw [mem_insertListing t.sorted]
  by_cases hkl : k = l
  · subst hkl
    simp [eq_comm]
  · simp [hkl, mem_iff_get? hk]

/-! ## Removing an entry -/

/-- **One entry removed**, with all that is beneath it. -/
def erase (t : Tree) (l : Location) : Tree where
  listing := t.listing.filter fun x => !l.isPrefixOf x.1
  sorted := t.sorted.filter _
  named := fun x hx => t.named x (List.mem_filter.1 hx).1
  housed := by
    intro x hx
    obtain ⟨hm, hn⟩ := List.mem_filter.1 hx
    refine (t.housed x hm).imp id fun h => List.mem_filter.2 ⟨h, ?_⟩
    simp only [Bool.not_eq_true', Bool.eq_false_iff, ne_eq, List.isPrefixOf_iff_prefix] at hn ⊢
    exact fun hp => hn (hp.trans (List.dropLast_prefix _))

theorem get?_erase (t : Tree) (l : Location) {k : Location} (hk : k ≠ []) :
    (t.erase l).get? k = if l <+: k then none else t.get? k := by
  apply Option.ext
  intro f
  rw [← mem_iff_get? hk]
  simp only [erase, List.mem_filter, Bool.not_eq_true', Bool.eq_false_iff, ne_eq,
    List.isPrefixOf_iff_prefix]
  by_cases h : l <+: k
  · simp [h]
  · simp [h, mem_iff_get? hk]

/-- No entry is a symbolic link. -/
def LinkFree (t : Tree) : Prop := ∀ l p, t.get? l ≠ some (.link p)

end Tree

end SourceCoding
