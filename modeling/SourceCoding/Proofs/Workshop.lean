import SourceCoding.Proofs.CompleteWalk
import SourceCoding.Proofs.Scratch

/-!
# Working in a scratch directory

A scratch directory is empty when it is made, and what is in it later is what was put there: the
list of what is below it has one entry more for every file that is written and every directory that
is made. Names that lead on from the directory name their places, whatever links there are on the
way to it; and a walk through the directory meets the entries of the list and no others.

## Main definitions

* `Tree.Furnished`: all that has changed is a new directory with certain entries in it

## Main results

* `Updates.below`: one entry more below a directory
* `Furnished.names_descendant`: names that lead on from the new directory name their place there
* `Furnished.write`, `Furnished.makeDirectory`: the directory is furnished
* `Furnished.survey`: the walk through the directory
-/

namespace SourceCoding

open SourceCoding.Path (Step)

/-- Names below a path go on from it. -/
theorem Path.within_descendant {root : Path} {names : Location} (hne : names ≠ [])
    (habs : root.isAbsolute) (hnames : ∀ n ∈ names, isName n) :
    root.Within (root.descendant names) (names.map .name) :=
  ⟨steps_descendant hne hnames, by rw [isAbsolute_descendant habs, habs]⟩

namespace Tree

variable {t u u' : Tree} {cwd d l : Location} {n m : Bytes} {c : Config} {scratch p : Path}
  {front names : Location} {entries : List (Location × Entry)} {e : Entry}

/-! ## What is below a directory -/

/-- **One entry more below a directory.** -/
theorem Updates.below (h : u.Updates u' (l ++ names) (some e)) (hne : names ≠ []) :
    u'.below l = insertListing names e (u.below l) := by
  refine listing_unique (sorted_below u' l) (sorted_insertListing (sorted_below u l)) ?_
  rintro ⟨x, f⟩
  rw [mem_below, mem_insertListing (sorted_below u l), mem_below, h (l ++ x)]
  rcases eq_or_ne x names with rfl | hx
  · simp [hne, eq_comm]
  · simp [hx]

theorem Makeable.below (h : t.Makeable cwd p d n) :
    (t.put (d ++ [n]) .dir).below (d ++ [n]) = [] := by
  refine List.eq_nil_iff_forall_not_mem.2 ?_
  rintro ⟨x, f⟩ hx
  obtain ⟨hne, hx⟩ := mem_below.1 hx
  rw [(updates_put h.writable .dir).other (by simpa using hne), h.get?_within] at hx
  cases hx

/-! ## A new directory with entries -/

/-- **All that has changed is a new directory with certain entries in it.** -/
structure Furnished (t : Tree) (l : Location) (entries : List (Location × Entry)) (u : Tree) :
    Prop where
  /-- Outside nothing has changed, and in the directory there are no links. -/
  confined : t.Confined l u
  /-- The entries are those below the directory. -/
  below : u.below l = entries

theorem Makeable.furnished (h : t.Makeable cwd p d n) :
    t.Furnished (d ++ [n]) [] (t.put (d ++ [n]) .dir) :=
  ⟨h.confined, h.below⟩

theorem Furnished.get?_eq_some (h : t.Furnished l entries u) (hm : (names, e) ∈ entries) :
    u.get? (l ++ names) = some e :=
  (mem_below.1 (h.below.symm ▸ hm)).2

theorem Furnished.get?_eq_none (h : t.Furnished l entries u) (hne : names ≠ [])
    (hm : ∀ e, (names, e) ∉ entries) : u.get? (l ++ names) = none := by
  by_contra hsome
  obtain ⟨e, he⟩ := Option.ne_none_iff_exists'.1 hsome
  exact hm e (h.below ▸ mem_below.2 ⟨hne, he⟩)

/-- A path that goes on from the new directory goes through what it names on the way. -/
theorem Confined.enters (h : t.Confined (d ++ [n]) u) (hv : t.Makeable cwd scratch d n)
    (hp : scratch.Within p ((front ++ [m]).map .name))
    (hdir : u.get? (d ++ [n] ++ front) = some .dir) : u.Enters cwd p (d ++ [n] ++ front) m := by
  obtain ⟨first, hsteps, hfirst⟩ := hv.last
  obtain ⟨b, hb⟩ := (hfirst.mono (h.extends hv) ⟨_, hv.dir, by simp⟩).follow_append
    ((h.extends hv).dir hv.dir)
  have hstart : start cwd p = start cwd scratch := by rw [start, hp.absolute, start]
  refine ⟨hdir, first ++ (n :: front).map .name, ?_, ?_⟩
  · rw [hp.steps, hsteps]
    simp
  · rw [List.append_assoc, List.singleton_append] at hdir ⊢
    rw [hstart]
    refine resolves_of_follow ?_
    rw [hb .use _ (by simp) (by simp)]
    exact (resolves_names hdir).follow

section

variable (h : t.Furnished (d ++ [n]) entries u) (hv : t.Makeable cwd scratch d n)
  (habs : scratch.isAbsolute) (hnames : ∀ x ∈ front ++ [m], isName x)
  (hlt : (scratch.descendant (front ++ [m])).bytes.length < pathLimit)
  (hfront : front = [] ∨ (front, .dir) ∈ entries)

include h hv habs hnames hlt hfront

/-- **Names that lead on from the new directory name their place there**, if the directories on the
way are there. -/
theorem Furnished.names_descendant :
    u.Names cwd (scratch.descendant (front ++ [m])) (d ++ [n] ++ (front ++ [m])) := by
  have hdir : u.get? (d ++ [n] ++ front) = some .dir := by
    rcases hfront with rfl | hfront
    · simpa using h.confined.dir
    · exact h.get?_eq_some hfront
  have hm : isName m := hnames m (by simp)
  refine ⟨refusal?_descendant_of_isName hv.accepted habs hnames hlt,
    ⟨d ++ [n] ++ front, m, by simp, length_le_of_isName hm, ?_⟩, h.confined.linkless _⟩
  exact h.confined.enters hv (Path.within_descendant (by simp) habs hnames) hdir

variable (hfree : ∀ e, (front ++ [m], e) ∉ entries)

include hfree

/-- **A file written** where nothing is. -/
theorem Furnished.write (content : Bytes) :
    ∃ u', u.write cwd (scratch.descendant (front ++ [m])) content = .ok u' ∧
      t.Furnished (d ++ [n]) (insertListing (front ++ [m]) (.file content) entries) u' := by
  have hplace := h.names_descendant hv habs hnames hlt hfront
  have hnone := h.get?_eq_none (by simp) hfree
  obtain ⟨u', hw, hu⟩ := hplace.write (hnone ▸ by simp) content
  have hop : u.perform cwd (.write (scratch.descendant (front ++ [m])) content) = .ok u' := hw
  refine ⟨u', hw, h.confined.perform hv (front ++ [m]) ?_ (by simp) hop, ?_⟩
  · exact Path.within_descendant (by simp) habs hnames
  · exact h.below ▸ hu.below (by simp)

/-- **A directory made** where nothing is. -/
theorem Furnished.makeDirectory :
    ∃ u', u.makeDirectory cwd (scratch.descendant (front ++ [m])) = .ok u' ∧
      t.Furnished (d ++ [n]) (insertListing (front ++ [m]) .dir entries) u' := by
  have hplace := h.names_descendant hv habs hnames hlt hfront
  have hnone := h.get?_eq_none (by simp) hfree
  obtain ⟨u', hw, hu⟩ := hplace.makeDirectory hnone
  have hop : u.perform cwd (.makeDirectory (scratch.descendant (front ++ [m]))) = .ok u' := hw
  refine ⟨u', hw, h.confined.perform hv (front ++ [m]) ?_ (by simp) hop, ?_⟩
  · exact Path.within_descendant (by simp) habs hnames
  · exact h.below ▸ hu.below (by simp)

end

/-- **The walk through the new directory** meets its entries and no others. -/
theorem Furnished.survey (h : t.Furnished (d ++ [n]) entries u) (hv : t.Makeable cwd scratch d n)
    (habs : scratch.isAbsolute) (hname : scratch.rootName ≠ c.excludedName) :
    u.survey cwd c scratch = .ofSteps (entries.filterMap (u.notice cwd c scratch)) := by
  have hdir := h.confined.dir
  have hlocate := locate_use (h.confined.locate_scratch hv) (by simp [hdir])
  rw [survey_of_leads_dir habs hlocate hdir fun hx => hname hx.2, walkBelow, h.below]

end Tree

end SourceCoding
