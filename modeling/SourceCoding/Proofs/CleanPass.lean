import SourceCoding.Proofs.CompleteWalk
import SourceCoding.Proofs.Linkless

/-!
# A clean pass

Where the directories that the walk enters can be opened and every backup finds room, a pass without
faults succeeds on every source. Links are allowed: a source may be a link to a file, and several
sources may lead to one file. The backups are made and removed beside the sources, so they neither
hide an entry nor change where a link leads; and a file gets its declaration through the first
source that leads to it, since the others find it in order.

The length of a path matters. A source may have a path that the system takes while that of its
backup is too long, although the name of the backup is not.

## Main definitions

* `Tree.Vacant`, `Tree.Room`: nothing is under a path, and the system takes the path
* `Tree.Patched`: the files that sources lead to are fixed, and all else is as before
* `Tree.Due`: a source through which a declaration is inserted

## Main results

* `clean_pass`: what a pass does where every backup finds room
* `fails_of_slashes`: a backup with a short name and a long path makes a source fail
* `survey_slashes_of_dir`: a directory with a short name and a long path ends the walk
-/

namespace SourceCoding

namespace Tree

variable {t t' : Tree} {cwd d l m : Location} {c : Config} {root p f g : Path} {n : Bytes}

/-! ## Room for backups -/

/-- **Nothing is there** under a path whose last name an entry may have. -/
structure Vacant (t : Tree) (cwd : Location) (p : Path) : Prop where
  /-- The path has no zero byte. -/
  zero_not_mem : (0 : UInt8) ∉ p.bytes
  /-- The name at its end is not too long. -/
  name_le : ∀ n ∈ p.fileName?, n.length ≤ nameLimit
  /-- Nothing is there, not even a link. -/
  free : ∀ e, t.inspect cwd p ≠ .ok e

/-- **Nothing is there, and the system takes the path.** -/
structure Room (t : Tree) (cwd : Location) (p : Path) : Prop extends t.Vacant cwd p where
  /-- The path is not too long. -/
  length_lt : p.bytes.length < pathLimit

/-- **A backup finds room** in the directory of its source. -/
theorem Enters.room {b : BackupStore} (h : t.Enters cwd f d n) (hb : b.Proper)
    (hr : t.Room cwd (b.backupPath f)) :
    b.Usable f n ∧ t.get? (d ++ [n ++ b.suffix]) = none := by
  have hslot : t.Enters cwd (b.backupPath f) d (n ++ b.suffix) := h.append hb.slash_not_mem
  have ha : refusal? (b.backupPath f) = none :=
    refusal?_eq_none.2 ⟨hr.zero_not_mem, hslot.bytes_ne_nil, hr.length_lt⟩
  refine ⟨⟨ha, hr.name_le _ ?_⟩, ?_⟩
  · obtain ⟨-, front, hs, -⟩ := hslot
    exact Path.fileName?_of_steps hs
  · cases he : t.get? (d ++ [n ++ b.suffix]) with
    | none => rfl
    | some e => exact absurd (hslot.inspect ha he) (hr.free e)

/-! ## Files that sources lead to -/

theorem Leads.unique {l' : Location} (h : t.Leads cwd p l) (h' : t.Leads cwd p l') : l = l' :=
  Except.ok.inj (h.locate.symm.trans h'.locate)

/-- **The files that paths lead to are fixed**, and all else is as before. -/
structure Patched (c : Config) (files : List Path) (t t' : Tree) (cwd : Location) : Prop where
  /-- A file is fixed, however many of the paths lead to it. -/
  fixed : ∀ f ∈ files, ∀ l b, t.Leads cwd f l → t.get? l = some (.file b) →
    t'.get? l = some (.file (c.fixed b))
  /-- Elsewhere nothing has changed. -/
  other : ∀ m, (∀ f ∈ files, ¬ t.Leads cwd f m) → t'.get? m = t.get? m

/-- What is no file is as before. -/
theorem Patched.get?_eq {files : List Path} (h : Patched c files t t' cwd)
    (hm : ∀ b, t.get? m ≠ some (.file b)) : t'.get? m = t.get? m :=
  h.other m fun _ _ hl => hl.file.elim hm

theorem Patched.extends {files : List Path} (h : Patched c files t t' cwd) : t'.Extends t := by
  intro m e hm he
  rw [h.get?_eq fun b hb => he b (Option.some.inj (hm.symm.trans hb)), hm]

/-- Nothing comes or goes. -/
theorem Patched.get?_eq_none_iff {files : List Path} (h : Patched c files t t' cwd) (m : Location) :
    t'.get? m = none ↔ t.get? m = none := by
  by_cases hm : ∃ f ∈ files, t.Leads cwd f m
  · obtain ⟨f, hf, hfm⟩ := hm
    obtain ⟨b, hb⟩ := hfm.file
    rw [h.fixed f hf m b hfm hb, hb]
    simp
  · push Not at hm
    rw [h.other m hm]

/-- **A declaration is due** for a source: the file it leads to has none, and no source before it
leads there. -/
def Due (t : Tree) (cwd : Location) (before : List Path) (f : Path) : Prop :=
  ∃ l b, t.Leads cwd f l ∧ t.get? l = some (.file b) ∧ isCompliant b = false ∧
    ∀ g ∈ before, ¬ t.Leads cwd g l

/-- **What a source holds** after some others have been treated: it is fixed if one of them leads to
the same file, and as before otherwise. -/
theorem Patched.exists_content {done : List Path} {b : Bytes} (h : Patched c done t t' cwd)
    (hc : c.Valid) (hl : t.Leads cwd f l) (hb : t.get? l = some (.file b)) :
    ∃ b', t'.get? l = some (.file b') ∧ c.fixed b' = c.fixed b ∧
      (isCompliant b' = false ↔ t.Due cwd done f) := by
  by_cases hbefore : ∃ g ∈ done, t.Leads cwd g l
  · obtain ⟨g, hg, hgl⟩ := hbefore
    refine ⟨c.fixed b, h.fixed g hg l b hgl hb, hc.fixed_fixed b, ?_⟩
    refine iff_of_false (by simp [hc.isCompliant_fixed]) ?_
    rintro ⟨l', -, hl', -, -, hnone⟩
    exact hnone g hg (hl.unique hl' ▸ hgl)
  · push Not at hbefore
    refine ⟨b, (h.other l hbefore).trans hb, rfl, ?_⟩
    constructor
    · intro hcomp
      exact ⟨l, b, hl, hb, hcomp, hbefore⟩
    · rintro ⟨l', b', hl', hb', hcomp, -⟩
      obtain rfl := hl.unique hl'
      obtain ⟨⟩ := hb.symm.trans hb'
      exact hcomp

/-- **One source more** is fixed in a tree that shows its fixed content, and no backup in a place
that was free before. -/
theorem Patched.concat {done : List Path} {t₁ : Tree} {k : Location} {b : Bytes}
    (h : Patched c done t t₁ cwd) (hl : t.Leads cwd f l) (hb : t.get? l = some (.file b))
    (hk : t.get? k = none) (hs : t'.Shows t₁ l k ⟨some (.file (c.fixed b)), none⟩) :
    Patched c (done ++ [f]) t t' cwd := by
  constructor
  · intro g hg l' b' hgl hgb
    by_cases hl' : l' = l
    · subst hl'
      obtain ⟨⟩ := hb.symm.trans hgb
      exact hs.holds.1
    · have hgf : g ≠ f := by
        rintro rfl
        exact hl' (hgl.unique hl)
      have hdone : g ∈ done := (List.mem_append.1 hg).resolve_right (by simpa using hgf)
      have hk' : l' ≠ k := by
        rintro rfl
        simp [hk] at hgb
      rw [hs.other l' hl' hk']
      exact h.fixed g hdone l' b' hgl hgb
  · intro m hm
    have hml : m ≠ l := by
      rintro rfl
      exact hm f (by simp) hl
    by_cases hmk : m = k
    · rw [hmk, hk]
      exact hs.holds.2
    · rw [hs.other m hml hmk]
      exact h.other m fun g hg => hm g (List.mem_append_left _ hg)

/-- A declaration is due for a source among others, given in their order. -/
def DueIn (t : Tree) (cwd : Location) (files : List Path) (f : Path) : Prop :=
  ∃ before after, files = before ++ f :: after ∧ t.Due cwd before f

theorem dueIn_concat {done : List Path} :
    t.DueIn cwd (done ++ [f]) g ↔ t.DueIn cwd done g ∨ g = f ∧ t.Due cwd done f := by
  constructor
  · rintro ⟨before, after, hfiles, hdue⟩
    rcases List.eq_nil_or_concat after with rfl | ⟨after, x, rfl⟩
    · obtain ⟨rfl, hg⟩ := List.append_inj' hfiles rfl
      obtain rfl := List.singleton_inj.1 hg
      exact .inr ⟨rfl, hdue⟩
    · rw [List.concat_eq_append, ← List.cons_append, ← List.append_assoc] at hfiles
      exact .inl ⟨before, after, (List.append_inj' hfiles rfl).1, hdue⟩
  · rintro (⟨before, after, rfl, hdue⟩ | ⟨rfl, hdue⟩)
    · exact ⟨before, after ++ [f], by simp, hdue⟩
    · exact ⟨done, [], rfl, hdue⟩

end Tree

/-! ## One source more -/

section

variable {c : Config} {p : Pass} {root f : Path} {S : Summary} {s s₁ : Session} {t : Tree}
  {cwd d : Location} {n : Bytes} {done : List Path}

/-- **A step on a source whose backup finds room** fixes the file that the source leads to. -/
theorem step_of_room (hc : c.Valid) (hp : p.Follows c) (hm : p.mode = .apply) (hf : p.faults = [])
    (hcwd : s₁.cwd = cwd) (hpatched : t.Patched c done s₁.tree cwd) (hat : t.SourceAt cwd c f d n)
    (hroom : t.Room cwd ((BackupStore.ofConfig c).backupPath f)) :
    ∃ action s₂, (p.step S f).runIn s₁ = (.ok (S.recordAction f action), s₂) ∧ s₂.cwd = cwd ∧
      t.Patched c (done ++ [f]) s₂.tree cwd ∧
      (action = .patched ∧ t.Due cwd done f ∨ action = .alreadyCompliant ∧ ¬ t.Due cwd done f) := by
  subst hcwd
  have hproper := hp.proper hc
  obtain ⟨hu, hfree⟩ := hat.enters.room hproper (hp.backupPath f ▸ hroom)
  have hslot : t.Enters s₁.cwd (p.patcher.store.backupPath f) d (n ++ p.patcher.store.suffix) :=
    hat.enters.append hproper.slash_not_mem
  obtain ⟨l, hl⟩ := hat.exists_leads (Tree.refusal?_of_append hat.enters.bytes_ne_nil hu.1)
  obtain ⟨b, hb⟩ := hl.file
  obtain ⟨b', hb', hfixed, hdue⟩ := hpatched.exists_content hc hl hb
  have he := hpatched.extends
  set k := d ++ [n ++ p.patcher.store.suffix] with hk
  have hfree' : s₁.tree.get? k = none := by
    rw [hpatched.get?_eq (by simp [hfree]), hfree]
  have hseated : Seated p.patcher.store f l k s₁.tree s₁.cwd := by
    refine ⟨?_, ⟨hu.1, ⟨d, _, rfl, hu.2, hslot.mono he⟩, by simp [hfree']⟩,
      .inr ⟨hl.mono he ⟨b', hb'⟩, Pass.strikes_of_no_faults hf _ _⟩⟩
    rintro rfl
    simp [hfree] at hb
  obtain ⟨t', hr, hs⟩ := comesTo_patch (d := ⟨some (.file b'), none⟩) hseated ⟨hb', hfree'⟩
  obtain ⟨hresult, hdesk⟩ := turn_of_no_fault (d := ⟨some (.file b'), none⟩) f
    (show p.patcher.mode = .apply from hm) (Pass.strikes_of_no_faults hf · f) rfl (by simp)
    plain_none
  have hpfixed : p.patcher.fixed b' = c.fixed b := by
    rw [← hfixed, Patcher.fixed, Config.fixed, hp.declaration]
  rw [hresult] at hr
  rw [hdesk, hpfixed] at hs
  refine ⟨if isCompliant b' then .alreadyCompliant else .patched, _, Pass.step_of_ok hr, rfl,
    hpatched.concat hl hb hfree hs, ?_⟩
  cases hcomp : isCompliant b'
  · exact .inl ⟨rfl, hdue.1 hcomp⟩
  · exact .inr ⟨rfl, fun h => by simp [hdue.2 h] at hcomp⟩

/-! ## The whole pass -/

/-- **A clean pass** fixes every file that a source leads to and changes nothing else. A source gets
on record as patched if it is the first one that leads to a file without a declaration, and all
others are found in order. -/
theorem clean_pass {e : Entry} (hc : c.Valid) (hp : p.Follows c) (hm : p.mode = .apply)
    (hf : p.faults = []) (habs : root.isAbsolute) (hroot : s.tree.status s.cwd root = .ok e)
    (hopen : s.tree.PassedOver s.cwd c root ∨ s.tree.Openable s.cwd c root)
    (hroom : ∀ f ∈ (s.tree.survey s.cwd c root).sources,
      s.tree.Room s.cwd ((BackupStore.ofConfig c).backupPath f)) :
    let files := (s.tree.survey s.cwd c root).sources
    ∃ summary s', (p.run root).runIn s = (.ok summary, s') ∧
      (∀ f ∈ files, ∃ l, s.tree.Leads s.cwd f l) ∧ s.tree.Patched c files s'.tree s.cwd ∧
      (∀ m, s'.tree.get? m = none ↔ s.tree.get? m = none) ∧
      summary.filesScanned = files.length ∧
      summary.patched.Sublist files ∧
      (∀ f, f ∈ summary.patched ↔ s.tree.DueIn s.cwd files f) ∧
      summary.alreadyCompliant + summary.patched.length = files.length ∧
      summary.nonCompliant = [] ∧ summary.recovered = [] ∧ summary.pendingBackups = [] ∧
      summary.failures = [] := by
  intro files
  have hfiles : (s.tree.survey s.cwd p.config root).sources = files := by rw [hp.survey]
  have ho : (s.tree.survey s.cwd p.config root).obstacle = none := by
    rw [hp.survey]
    exact Tree.obstacle_survey habs hroot hopen
  -- The invariant: the files that the sources treated so far lead to are fixed, and the summary has
  -- the due ones among them as patched and all others as compliant.
  have hrun := Pass.run_total (p := p) (s := s)
    (I := fun done S s₁ => s₁.cwd = s.cwd ∧ s.tree.Patched c done s₁.tree s.cwd ∧
      ∃ a ps, S = { p.blank root files with alreadyCompliant := a, patched := ps } ∧
        a + ps.length = done.length ∧ ps.Sublist done ∧ ∀ f, f ∈ ps ↔ s.tree.DueIn s.cwd done f)
    (fun done S s₁ es hI => hI) ?_ ho ?_
  · obtain ⟨S, s', hr, -, hpatched, a, ps, rfl, hcount, hsub, hdue⟩ := hrun
    rw [hfiles] at hpatched hcount hsub hdue
    refine ⟨_, s', hr, fun f hf => ?_, hpatched, hpatched.get?_eq_none_iff, rfl, hsub, hdue, hcount,
      rfl, rfl, rfl, rfl⟩
    obtain ⟨d, n, hat⟩ := Tree.exists_sourceAt hf
    obtain ⟨hu, -⟩ := hat.enters.room (hc.proper []) (hroom f hf)
    exact hat.exists_leads (Tree.refusal?_of_append hat.enters.bytes_ne_nil hu.1)
  · rintro done f rest S s₁ hsplit ⟨hcwd, hpatched, a, ps, rfl, hcount, hsub, hdue⟩
    rw [hfiles] at hsplit
    have hf' : f ∈ files := by simp [hsplit]
    obtain ⟨d, n, hat⟩ := Tree.exists_sourceAt hf'
    obtain ⟨action, s₂, hstep, hcwd', hpatched', haction⟩ :=
      step_of_room hc hp hm hf hcwd hpatched hat (hroom f hf')
    refine ⟨_, s₂, hstep, hcwd', hpatched', ?_⟩
    rcases haction with ⟨rfl, hduef⟩ | ⟨rfl, hduef⟩
    · refine ⟨a, ps ++ [f], rfl, ?_, hsub.append (.refl _), fun g => ?_⟩
      · simp only [List.length_append, List.length_singleton]
        omega
      · rw [Tree.dueIn_concat, List.mem_append, hdue g, List.mem_singleton, and_iff_left hduef]
    · refine ⟨a + 1, ps, rfl, ?_, hsub.trans (List.sublist_append_left _ _), fun g => ?_⟩
      · simp only [List.length_append, List.length_singleton]
        omega
      · rw [Tree.dueIn_concat, hdue g, or_iff_left fun h => hduef h.2]
  · exact ⟨rfl, ⟨by simp, fun _ _ => rfl⟩, 0, [], by rw [hfiles]; rfl, rfl, .refl _,
      by simp [Tree.DueIn]⟩

/-- A source and a link to it: the first one is patched, and the second one is in order. -/
theorem clean_pass_of_link :
    let t := (Tree.lone (Bytes.ofString "a.py") (Bytes.ofString "x = 1")).put
      [Bytes.ofString "b.py"] (.link (Path.ofString "/a.py"))
    ∃ summary s', (Pass.run ⟨{}, .apply, []⟩ (Path.ofString "/")).runIn ⟨t, [], []⟩ =
        (.ok summary, s') ∧ summary.failures = [] ∧
      summary.patched.Sublist (t.survey [] {} (Path.ofString "/")).sources ∧
      summary.alreadyCompliant + summary.patched.length = 2 := by
  intro t
  have hsources : (t.survey [] {} (Path.ofString "/")).sources =
      [Path.ofString "/a.py", Path.ofString "/b.py"] := by decide +kernel
  have hopen : t.Openable [] {} (Path.ofString "/") := by
    have hlocate : t.locate [] .use (Path.ofString "/") = .ok [] := by rfl
    have hdir : ∀ x ∈ t.below [], x.2 ≠ .dir := by decide +kernel
    intro l names hl hm
    obtain rfl := Except.ok.inj (hlocate.symm.trans hl)
    exact absurd rfl (hdir _ hm)
  have hroom : ∀ f ∈ [Path.ofString "/a.py", Path.ofString "/b.py"],
      t.Room [] ((BackupStore.ofConfig {}).backupPath f) := by
    intro f hf
    simp only [List.mem_cons, List.not_mem_nil, or_false] at hf
    rcases hf with rfl | rfl
    · exact ⟨⟨by decide, by decide, fun e he => by cases he⟩, by decide⟩
    · exact ⟨⟨by decide, by decide, fun e he => by cases he⟩, by decide⟩
  obtain ⟨summary, s', hr, -, -, -, -, hsub, -, hcount, -, -, -, hfail⟩ :=
    clean_pass (c := {}) (p := ⟨{}, .apply, []⟩) (s := ⟨t, [], []⟩) (e := .dir) Config.valid_default
      ⟨false, rfl⟩ rfl rfl (by decide) (by rfl) (.inr hopen) (hsources ▸ hroom)
  exact ⟨summary, s', hr, hfail, hsub, hcount.trans (congrArg List.length hsources)⟩

end

/-! ## A path that is too long -/

section

variable {k : Nat} {n b : Bytes}

/-- The root directory, with more slashes than it needs. -/
def Path.slashes (k : Nat) : Path := ⟨List.replicate k Bytes.slash⟩

namespace Path

theorem segmentsOf_slashes (k : Nat) :
    segmentsOf (slashes k).bytes = List.replicate (k + 1) [] := by
  induction k with
  | zero => rfl
  | succ k ih =>
    rw [slashes, List.replicate_succ, segmentsOf, if_pos rfl]
    exact congrArg _ ih

theorem steps_slashes (hk : k ≠ 0) : (slashes k).steps = [.slash] := by
  have hlast : (slashes k).bytes.getLast? = some Bytes.slash := by
    simp [slashes, List.getLast?_replicate, hk]
  rw [steps, segmentsOf_slashes, if_pos hlast, List.filterMap_replicate_of_none]
  · rfl
  · rfl

theorem rootName_slashes (k : Nat) : (slashes k).rootName = List.replicate k Bytes.slash := by
  have : (slashes k).properSegments = [] := by
    rw [properSegments, segmentsOf_slashes, List.filter_replicate]
    simp
  rw [rootName, fileName?, this]
  rfl

theorem isAbsolute_slashes (hk : k ≠ 0) : (slashes k).isAbsolute := by
  simp [isAbsolute, slashes, List.head?_replicate, hk]

end Path

theorem Tree.locate_slashes (t : Tree) (cwd : Location) (aim : Aim) (hk : k ≠ 0)
    (hlt : k < pathLimit) : t.locate cwd aim (.slashes k) = .ok [] := by
  refine locate_eq_ok.2 ⟨refusal?_eq_none.2 ⟨fun h0 => ?_, ?_, ?_⟩, ?_⟩
  · exact absurd (List.eq_of_mem_replicate h0) (by decide)
  · simp [Path.slashes, hk]
  · simpa [Path.slashes] using hlt
  · rw [Path.steps_slashes hk, start, if_pos (Path.isAbsolute_slashes hk)]
    exact .slash .here

theorem Tree.below_empty_put (hn : isName n) (e : Entry) :
    (Tree.empty.put [n] e).below [] = [([n], e)] := by
  have hw : Tree.empty.Writable [n] := ⟨⟨n, by simp, hn⟩, by simp, by simp [get?, empty]⟩
  rw [put, dif_pos hw]
  simp [below, empty, insertListing]

/-- The slashes lead to the root directory, and the walk goes through all of it. -/
theorem survey_slashes {t : Tree} (ht : t.LinkFree) (hk : k ≠ 0) (hlt : k < pathLimit) :
    t.survey [] {} (.slashes k) = t.walkBelow [] {} (.slashes k) [] := by
  have hroot : (Path.slashes k).rootName ≠ ({} : Config).excludedName := by
    rw [Path.rootName_slashes]
    intro h
    have : Bytes.slash ∈ ({} : Config).excludedName := h ▸ List.mem_replicate.2 ⟨hk, rfl⟩
    exact absurd this (by decide)
  rw [Tree.survey_of_dir ht (Path.isAbsolute_slashes hk) (Tree.locate_slashes _ _ _ hk hlt)
    (Tree.get?_nil _), if_neg hroot]

theorem bytes_slashes_descendant (hk : k ≠ 0) :
    ((Path.slashes k).descendant [n]).bytes = List.replicate k Bytes.slash ++ n := by
  simp [Path.descendant, Path.child, Path.slashes, List.getLast?_replicate, hk]

theorem zero_not_mem_slashes (hn : isName n) :
    (0 : UInt8) ∉ List.replicate k Bytes.slash ++ n := by
  intro h0
  rcases List.mem_append.1 h0 with h0 | h0
  · exact absurd (List.eq_of_mem_replicate h0) (by decide)
  · simp [isName, h0] at hn

theorem enters_slashes (hn : isName n) (hk : k ≠ 0) (hlt : k < pathLimit) (e : Entry) :
    (Tree.empty.put [n] e).Enters [] ((Path.slashes k).descendant [n]) [] n := by
  have hw : Tree.empty.Writable [n] := ⟨⟨n, by simp, hn⟩, by simp, by simp [Tree.get?, Tree.empty]⟩
  have hg : (Tree.empty.put [n] e).get? ([] ++ ([] ++ [n])) ≠ none := by
    rw [Tree.get?_put hw]
    simp
  exact Tree.enters_descendant (Path.isAbsolute_slashes hk) (Tree.locate_slashes _ _ _ hk hlt) rfl
    hg

/-- **A directory with a short name and a long path** ends the walk. -/
theorem survey_slashes_of_dir (hn : isName n) (hx : n ≠ ({} : Config).excludedName) (hk : k ≠ 0)
    (hlt : k < pathLimit) (hle : pathLimit ≤ k + n.length) :
    (Tree.empty.put [n] .dir).survey [] {} (.slashes k) =
      .refused (.walk ((Path.slashes k).descendant [n]) .nameTooLong) := by
  have ht : (Tree.empty.put [n] .dir).LinkFree := Tree.linkFree_empty_put n (by simp)
  have hbytes := bytes_slashes_descendant (n := n) hk
  have hrefused : Tree.refusal? ((Path.slashes k).descendant [n]) = some .nameTooLong := by
    have hzero := zero_not_mem_slashes (k := k) hn
    rw [Tree.refusal?, hbytes, if_neg (by simpa using hzero), if_neg (by simp [hk]), if_pos]
    simpa using hle
  have hstatus : (Tree.empty.put [n] .dir).status [] ((Path.slashes k).descendant [n]) =
      .error .nameTooLong := by
    rw [Tree.status_of_enters (enters_slashes hn hk hlt _), hrefused]
    exact (Tree.mem_below.1 (by simp [Tree.below_empty_put hn] : ([n], Entry.dir) ∈ _)).2
  rw [survey_slashes ht hk hlt, Tree.walkBelow, Tree.below_empty_put hn]
  simp [Tree.notice, hx, hstatus, Walk.ofSteps]

/-- With the walk the pass ends. -/
theorem walk_fails_of_slashes (p : Pass) (hp : p.Follows {}) (hn : isName n)
    (hx : n ≠ ({} : Config).excludedName) (hk : k ≠ 0) (hlt : k < pathLimit)
    (hle : pathLimit ≤ k + n.length) :
    ((Tree.empty.put [n] .dir).survey [] {} (.slashes k)).sources = [] ∧
      ∃ failure s', (p.run (.slashes k)).runIn ⟨Tree.empty.put [n] .dir, [], []⟩ =
        (.error failure, s') := by
  rw [Pass.runIn_run, hp.survey, survey_slashes_of_dir hn hx hk hlt hle]
  exact ⟨rfl, _, _, rfl⟩

/-- **A step on a source whose backup the system does not take** puts a failure on record. -/
theorem step_of_not_usable {p : Pass} {S : Summary} {s : Session} {f : Path} {d : Location}
    (hb : p.patcher.store.Proper) (hfast : p.config.failFast = false) (ht : s.tree.LinkFree)
    (he : s.tree.Enters s.cwd f d n) (hu : ¬ p.patcher.store.Usable f n) :
    ∃ error s', (p.step S f).runIn s = (.ok (S.recordFailure f error), s') ∧ s'.tree = s.tree ∧
      s'.cwd = s.cwd := by
  rcases patch_cases hb ht he with ⟨-, told, hr⟩ | ⟨hu', -⟩
  · set e := p.patcher.store.unreadable f
    rw [Pass.runIn_step, hr]
    refine ⟨e.message, (s.tell told).tell [.skipped f e.message], ?_, rfl, rfl⟩
    simp [hfast]
  · exact absurd hu' hu

/-- Nothing is under a path that the system does not take. -/
theorem Tree.Enters.vacant {t : Tree} {cwd d : Location} {f : Path} {store : BackupStore}
    (h : t.Enters cwd f d n) (hb : store.Proper) (hu : ¬ store.Usable f n)
    (hzero : (0 : UInt8) ∉ (store.backupPath f).bytes)
    (hlen : (n ++ store.suffix).length ≤ nameLimit) : t.Vacant cwd (store.backupPath f) := by
  refine ⟨hzero, ?_, ?_⟩
  · intro m hm
    obtain ⟨-, front, hs, -⟩ := h.append hb.slash_not_mem
    obtain rfl := Option.some.inj ((Path.fileName?_of_steps hs).symm.trans hm)
    exact hlen
  · intro e hi
    obtain ⟨-, hl⟩ := h.locate_of_not_usable hb hu
    exact absurd ((inspect_of_locate_error (hl .inspect)).symm.trans hi) (by simp)

/-- **A backup with a short name and a long path** makes a source fail, though nothing is in its
place. -/
theorem fails_of_slashes (hn : isName n) (hnamed : ({} : Config).isSourceName n)
    (hlen : n.length + 8 ≤ nameLimit) (hk : k ≠ 0) (hlt : k < pathLimit)
    (hle : pathLimit ≤ k + n.length + 8) :
    (∀ f ∈ ((Tree.lone n b).survey [] {} (.slashes k)).sources,
        (Tree.lone n b).Vacant [] ((BackupStore.ofConfig {}).backupPath f)) ∧
      ∃ summary s', (Pass.run ⟨{}, .apply, []⟩ (.slashes k)).runIn ⟨Tree.lone n b, [], []⟩ =
        (.ok summary, s') ∧ summary.failures ≠ [] := by
  have ht := Tree.linkFree_lone n b
  have hproper : (BackupStore.ofConfig {}).Proper := Config.valid_default.proper []
  have hsuffix : (BackupStore.ofConfig {}).suffix.length = 8 := by decide
  have hsurvey : (Tree.lone n b).survey [] {} (.slashes k) =
      { findings := [.source ((Path.slashes k).descendant [n])] } := by
    rw [survey_slashes ht hk hlt, Tree.walkBelow, Tree.lone, Tree.below_empty_put hn]
    simp [Tree.notice, hnamed, Walk.ofSteps]
  have hsources : ((Tree.lone n b).survey [] {} (.slashes k)).sources =
      [(Path.slashes k).descendant [n]] := by
    rw [hsurvey]
    rfl
  have he : (Tree.lone n b).Enters [] ((Path.slashes k).descendant [n]) [] n :=
    enters_slashes hn hk hlt _
  have hbytes : ((BackupStore.ofConfig {}).backupPath ((Path.slashes k).descendant [n])).bytes =
      List.replicate k Bytes.slash ++ n ++ (BackupStore.ofConfig {}).suffix := by
    rw [BackupStore.backupPath, Path.bytes_append, bytes_slashes_descendant hk]
  have hu : ¬ (BackupStore.ofConfig {}).Usable ((Path.slashes k).descendant [n]) n := by
    rintro ⟨ha, -⟩
    have := (Tree.refusal?_eq_none.1 ha).2.2
    rw [hbytes] at this
    simp only [List.length_append, List.length_replicate, hsuffix] at this
    omega
  constructor
  · intro f hf
    obtain rfl : f = (Path.slashes k).descendant [n] := by simpa [hsources] using hf
    refine he.vacant hproper hu ?_ (by rw [List.length_append, hsuffix]; exact hlen)
    rw [hbytes, List.mem_append, not_or]
    exact ⟨zero_not_mem_slashes hn, by decide⟩
  · have hrun := Pass.run_total (p := ⟨{}, .apply, []⟩) (s := ⟨Tree.lone n b, [], []⟩)
      (I := fun done S s₁ => s₁.tree = Tree.lone n b ∧ s₁.cwd = [] ∧ (done ≠ [] → S.failures ≠ []))
      (fun done S s₁ es hI => hI) ?_ (congrArg Walk.obstacle hsurvey) ⟨rfl, rfl, by simp⟩
    · obtain ⟨summary, s', hr, -, -, hfail⟩ := hrun
      exact ⟨summary, s', hr, hfail (by rw [hsources]; simp)⟩
    · rintro done f rest S s₁ hsplit ⟨htree, hcwd, -⟩
      obtain rfl : f = (Path.slashes k).descendant [n] := by
        have : f ∈ [(Path.slashes k).descendant [n]] := hsources ▸ hsplit ▸ by simp
        simpa using this
      have he' : s₁.tree.Enters s₁.cwd ((Path.slashes k).descendant [n]) [] n := by
        rw [htree, hcwd]
        exact he
      obtain ⟨error, s₂, hstep, htree₂, hcwd₂⟩ :=
        step_of_not_usable (p := ⟨{}, .apply, []⟩) (S := S) hproper rfl (htree ▸ ht) he' hu
      exact ⟨_, s₂, hstep, htree₂.trans htree, hcwd₂.trans hcwd, by simp [Summary.recordFailure]⟩

/-- Names of common length behind 4090 slashes: a source fails in the one tree, and the walk in the
other, where there is no source at all. -/
theorem fails_of_many_slashes :
    (({} : Config).Valid ∧ (Path.slashes 4090).isAbsolute) ∧
      ((Tree.lone (Bytes.ofString "a.py") []).status [] (.slashes 4090) = .ok .dir ∧
        (∀ f ∈ ((Tree.lone (Bytes.ofString "a.py") []).survey [] {} (.slashes 4090)).sources,
          (Tree.lone (Bytes.ofString "a.py") []).Vacant []
            ((BackupStore.ofConfig {}).backupPath f)) ∧
        ∃ summary s', (Pass.run ⟨{}, .apply, []⟩ (.slashes 4090)).runIn
            ⟨Tree.lone (Bytes.ofString "a.py") [], [], []⟩ = (.ok summary, s') ∧
          summary.failures ≠ []) ∧
      (Tree.empty.put [Bytes.ofString "library"] .dir).status [] (.slashes 4090) = .ok .dir ∧
        ((Tree.empty.put [Bytes.ofString "library"] .dir).survey [] {} (.slashes 4090)).sources =
          [] ∧
        ∃ failure s', (Pass.run ⟨{}, .apply, []⟩ (.slashes 4090)).runIn
          ⟨Tree.empty.put [Bytes.ofString "library"] .dir, [], []⟩ = (.error failure, s') := by
  have hroot : ∀ t : Tree, t.status [] (.slashes 4090) = .ok .dir := fun t =>
    Tree.entryAt_eq_ok.2 ⟨[], Tree.locate_slashes t _ _ (by decide) (by decide), t.get?_nil⟩
  refine ⟨⟨Config.valid_default, Path.isAbsolute_slashes (by decide)⟩, ⟨hroot _, ?_⟩, hroot _, ?_⟩
  · exact fails_of_slashes (by decide) (by decide) (by decide) (by decide) (by decide) (by decide)
  · exact walk_fails_of_slashes ⟨_, .apply, []⟩ ⟨false, rfl⟩ (by decide) (by decide) (by decide)
      (by decide) (by decide)

end

end SourceCoding
