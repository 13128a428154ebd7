import Mathlib.Data.List.Basic
import SourceCoding.Proofs.Places

/-!
# The sources that a walk finds

A source is found under a path that goes through a directory to a name in it, and the name ends in
the extension. Different paths go to different names, so no source is found twice. The walk does not
look into files, so it finds the same sources where only contents and other files have changed.

## Main definitions

* `Tree.SourceAt`: a path goes to a source
* `Tree.found?`: the source that a step of a walk has found
* `Tree.Alike`: two trees have the same directories, links and sources

## Main results

* `exists_sourceAt`: every source found is one
* `eq_of_enters`: one source has one path
* `sorted_sources`, `nodup_sources`: the sources are found in order, and none of them twice
* `exists_beside`: what stands beside a source and has the extension is found as well
* `survey_congr`: trees that are alike are walked alike
-/

namespace SourceCoding

namespace Tree

variable {t t' : Tree} {cwd d l : Location} {c : Config} {root f g : Path} {n : Bytes}
  {names : Location} {e : Entry} {aim : Aim} {p : Path}

/-! ## Looking at the root -/

theorem entryAt_eq_ok : t.entryAt cwd aim p = .ok e ↔
    ∃ l, t.locate cwd aim p = .ok l ∧ t.get? l = some e := by
  unfold entryAt
  cases hl : t.locate cwd aim p with
  | error err => simp [bind, Except.bind]
  | ok l =>
    simp only [bind, Except.bind, Except.ok.injEq, exists_eq_left']
    cases t.get? l <;> simp

/-- What has a name in a directory can be looked at. -/
theorem Enters.inspect {e : Entry} (h : t.Enters cwd p d n) (ha : refusal? p = none)
    (he : t.get? (d ++ [n]) = some e) : t.inspect cwd p = .ok e := by
  have hn : n.length ≤ nameLimit := length_le_of_isName (isName_of_get? he n (by simp))
  refine entryAt_eq_ok.2 ⟨d ++ [n], ?_, he⟩
  rw [locate, ha]
  exact h.follow_of_takes hn rfl

/-- What is reached for looking at it is reached for use, unless it is a link. -/
theorem locate_use (h : t.locate cwd aim p = .ok l) (hl : ∀ q, t.get? l ≠ some (.link q)) :
    t.locate cwd .use p = .ok l := by
  obtain ⟨ha, hr⟩ := locate_eq_ok.1 h
  exact locate_eq_ok.2 ⟨ha, hr.use hl⟩

/-- No link is reached for use or for writing. -/
theorem Resolves.ne_link_of_not_takes {b : Nat} {here : Location} {steps : List Path.Step}
    (haim : aim.takesLink = false) (h : t.Resolves aim b here steps l)
    (hd : t.get? here = some .dir) (q : Path) : t.get? l ≠ some (.link q) := by
  induction h with
  | here => simp [hd]
  | stay _ ih => exact ih hd
  | slash _ ih => exact ih hd
  | up _ ih => exact ih (get?_dropLast (by simp [hd]))
  | free _ hg => simp [hg]
  | file _ hg => simp [hg]
  | enter _ _ hg _ ih => exact ih hg
  | take _ _ ht => simp [haim] at ht
  | link _ _ _ _ _ _ ih => exact ih (get?_start hd _)

theorem Resolves.ne_link {b : Nat} {here : Location} {steps : List Path.Step}
    (h : t.Resolves .use b here steps l) (hd : t.get? here = some .dir) (q : Path) :
    t.get? l ≠ some (.link q) :=
  ne_link_of_not_takes rfl h hd q

theorem resolves_of_locate (h : t.locate cwd aim p = .ok l) :
    t.Resolves aim linkLimit (start cwd p) p.steps l :=
  (locate_eq_ok.1 h).2

theorem start_of_isAbsolute (h : p.isAbsolute) : start cwd p = [] := by simp [start, h]

/-! ## Below a directory -/

theorem mem_below : (names, e) ∈ t.below l ↔ names ≠ [] ∧ t.get? (l ++ names) = some e := by
  simp only [below, List.mem_filterMap, Prod.exists]
  constructor
  · rintro ⟨m, e', hm, hs⟩
    split_ifs at hs with hp
    simp only [Bool.and_eq_true, List.isPrefixOf_iff_prefix, decide_eq_true_eq] at hp
    obtain ⟨⟨s, rfl⟩, hne⟩ := hp
    simp only [List.drop_left, Option.some.injEq, Prod.mk.injEq] at hs
    obtain ⟨rfl, rfl⟩ := hs
    have hs : s ≠ [] := by simpa using hne
    exact ⟨hs, (mem_iff_get? (by simp [hs])).1 hm⟩
  · rintro ⟨hne, hg⟩
    refine ⟨l ++ names, e, (mem_iff_get? (by simp [hne])).2 hg, ?_⟩
    simp [hne, List.isPrefixOf_iff_prefix]

/-- What the walk takes for a source. -/
theorem notice_eq_source : t.notice cwd c root (names, e) = some (.ok (.source f)) ↔
    f = root.descendant names ∧ c.excludedName ∉ names.dropLast ∧
      c.isSourceName (names.getLast?.getD []) ∧
      ((∃ b, e = .file b) ∨ (∃ q, e = .link q) ∧ t.isFile cwd f) := by
  unfold notice
  dsimp only
  by_cases hx : c.excludedName ∈ names.dropLast
  · simp [hx]
  rw [if_neg hx]
  cases e with
  | file b =>
    cases hn : c.isSourceName (names.getLast?.getD []) <;>
      simp [hx, eq_comm (a := f)]
  | dir =>
    by_cases hn : names.getLast?.getD [] = c.excludedName
    · simp [hn]
    · cases t.status cwd (root.descendant names) <;> simp [hn]
  | link q =>
    cases hn : c.isSourceName (names.getLast?.getD [])
    · simp
    · by_cases hf : f = root.descendant names
      · subst hf
        cases t.isFile cwd (root.descendant names) <;> simp [hx]
      · cases t.isFile cwd (root.descendant names) <;> simp [hf, Ne.symm hf]

theorem mem_sources_ofSteps {steps : List (Except Failure Finding)}
    (h : f ∈ (Walk.ofSteps steps).sources) : .ok (.source f) ∈ steps := by
  induction steps with
  | nil => simp [Walk.ofSteps, Walk.sources] at h
  | cons x rest ih =>
    cases x with
    | error err => simp [Walk.ofSteps, Walk.refused, Walk.sources] at h
    | ok finding =>
      rw [Walk.sources, Walk.ofSteps, List.mem_filterMap] at h
      obtain ⟨y, hy, hs⟩ := h
      rcases List.mem_cons.1 hy with rfl | hy
      · cases y with
        | source path => simp_all [Finding.source?]
        | excluded path => simp [Finding.source?] at hs
      · exact List.mem_cons_of_mem _ (ih (List.mem_filterMap.2 ⟨y, hy, hs⟩))

/-- **A walk that finds sources** finds the root itself, a file, or walks through a directory. -/
theorem survey_cases (t : Tree) (cwd : Location) (c : Config) (root : Path) :
    (t.survey cwd c root).sources = [] ∨
      root.isAbsolute ∧ ∃ l, t.locate cwd .use root = .ok l ∧
        ((∃ b, t.get? l = some (.file b)) ∧ c.isSourceName root.rootName ∧
            t.survey cwd c root = { findings := [.source root] } ∨
          t.get? l = some .dir ∧ t.survey cwd c root = t.walkBelow cwd c root l) := by
  unfold survey
  cases habs : root.isAbsolute with
  | false => exact .inl rfl
  | true =>
    simp only [Bool.not_true, Bool.false_eq_true, if_false]
    cases hi : t.inspect cwd root with
    | error err => exact .inl rfl
    | ok e =>
      obtain ⟨l, hl, he⟩ := entryAt_eq_ok.1 hi
      cases e with
      | file b =>
        cases hn : c.isSourceName root.rootName with
        | false => exact .inl rfl
        | true => exact .inr ⟨trivial, l, locate_use hl (by simp [he]), .inl ⟨⟨b, he⟩, rfl, rfl⟩⟩
      | dir =>
        dsimp only
        split
        · exact .inl rfl
        · rw [hl]
          exact .inr ⟨trivial, l, locate_use hl (by simp [he]), .inr ⟨he, rfl⟩⟩
      | link q =>
        dsimp only
        cases hs : t.status cwd root with
        | error err => exact .inl rfl
        | ok e' =>
          obtain ⟨l', hl', he'⟩ := entryAt_eq_ok.1 hs
          cases e' with
          | file b =>
            cases hn : c.isSourceName root.rootName with
            | false => exact .inl rfl
            | true => exact .inr ⟨trivial, l', hl', .inl ⟨⟨b, he'⟩, rfl, rfl⟩⟩
          | dir =>
            dsimp only
            rw [hl']
            exact .inr ⟨trivial, l', rfl, .inr ⟨he', rfl⟩⟩
          | link q' =>
            have hr := resolves_of_locate hl'
            rw [start_of_isAbsolute habs] at hr
            exact absurd he' (hr.ne_link (get?_nil t) q')

/-- A source that is found is the root itself, a file, or it is below the root, a directory. -/
theorem mem_sources_survey (h : f ∈ (t.survey cwd c root).sources) :
    root.isAbsolute ∧ ∃ l, t.locate cwd .use root = .ok l ∧
      ((f = root ∧ c.isSourceName root.rootName ∧ ∃ b, t.get? l = some (.file b)) ∨
        t.get? l = some .dir ∧ f ∈ (t.walkBelow cwd c root l).sources) := by
  rcases survey_cases t cwd c root with hs | ⟨habs, l, hl, ⟨hb, hn, hs⟩ | ⟨hd, hs⟩⟩
  · simp [hs] at h
  · refine ⟨habs, l, hl, .inl ⟨?_, hn, hb⟩⟩
    simpa [hs, Walk.sources, Finding.source?] using h
  · exact ⟨habs, l, hl, .inr ⟨hd, hs ▸ h⟩⟩

/-! ## Paths to sources -/

/-- **A path goes to a source**: to a name with the extension, of a file or of a link to one. -/
structure SourceAt (t : Tree) (cwd : Location) (c : Config) (f : Path) (d : Location) (n : Bytes) :
    Prop where
  /-- The path goes through a directory to the name. -/
  enters : t.Enters cwd f d n
  /-- The name has the extension. -/
  named : c.isSourceName n
  /-- A file has the name, or a link to a file. -/
  entry : (∃ b, t.get? (d ++ [n]) = some (.file b)) ∨
    (∃ q, t.get? (d ++ [n]) = some (.link q)) ∧ t.isFile cwd f

theorem SourceAt.isName (h : t.SourceAt cwd c f d n) : isName n := by
  rcases h.entry with ⟨b, hb⟩ | ⟨⟨q, hq⟩, -⟩
  · exact isName_of_get? hb n (by simp)
  · exact isName_of_get? hq n (by simp)

/-- **A source leads to a file**, unless its path is refused. -/
theorem SourceAt.exists_leads (h : t.SourceAt cwd c f d n) (ha : refusal? f = none) :
    ∃ l, t.Leads cwd f l := by
  rcases h.entry with ⟨b, hb⟩ | ⟨-, hf⟩
  · have hfollow := h.enters.follow_name (length_le_of_isName h.isName) (by simp [hb]) .use
    exact ⟨_, ha, resolves_of_follow hfollow, b, hb⟩
  · unfold isFile at hf
    split at hf
    · obtain ⟨l, hl, he⟩ := entryAt_eq_ok.1 ‹_›
      exact ⟨l, leads_of_locate hl he⟩
    · cases hf

theorem enters_unique {d' : Location} {n' : Bytes} (h : t.Enters cwd p d n)
    (h' : t.Enters cwd p d' n') : d = d' ∧ n = n' := by
  obtain ⟨-, front, hs, hr⟩ := h
  obtain ⟨-, front', hs', hr'⟩ := h'
  obtain ⟨rfl, hn⟩ := List.append_inj' (hs.symm.trans hs') rfl
  simp only [List.cons.injEq, Path.Step.name.injEq, and_true] at hn
  exact ⟨Except.ok.inj (hr.follow.symm.trans hr'.follow), hn⟩

/-- A path without its final slash leads to the same directory. -/
theorem Resolves.filter_slash {b : Nat} (h : t.Resolves .use b d p.steps l) :
    t.Resolves .use b d (p.steps.filter (· ≠ .slash)) l := by
  rw [Path.filter_steps]
  unfold Path.steps at h
  split at h
  · exact h.of_slash rfl
  · simpa using h

/-- **A name below a root is entered** from where the names before it lead. -/
theorem enters_descendant {init : Location} (habs : root.isAbsolute)
    (hr : t.locate cwd .use root = .ok l) (hl : t.get? l = some .dir)
    (hg : t.get? (l ++ (init ++ [n])) ≠ none) :
    t.Enters cwd (root.descendant (init ++ [n])) (l ++ init) n := by
  obtain ⟨e, he⟩ := Option.ne_none_iff_exists'.1 hg
  have hdir : t.get? (l ++ init) = some .dir := by
    rw [← List.append_assoc] at he
    exact get?_of_get?_concat he
  have hnames : ∀ m ∈ init ++ [n], isName m := fun m hm =>
    isName_of_get? he m (List.mem_append_right _ hm)
  refine ⟨hdir, root.steps.filter (· ≠ .slash) ++ init.map .name, ?_, ?_⟩
  · rw [Path.steps_descendant (by simp) hnames]
    simp
  · have hstart : start cwd (root.descendant (init ++ [n])) = start cwd root := by
      rw [start_of_isAbsolute habs, start_of_isAbsolute (Path.isAbsolute_descendant habs _)]
    have hroot := resolves_of_locate hr
    rw [hstart]
    rcases eq_or_ne init [] with rfl | hne
    · simpa using hroot.filter_slash
    · obtain ⟨b, hb⟩ := hroot.filter_slash.follow_append hl
      refine resolves_of_follow ?_
      rw [hb .use _ (by simpa using hne) ?_]
      · exact (resolves_names hdir).follow
      · rcases init with _ | ⟨m, init⟩ <;> simp

/-- A source below a directory, by the names that lead to it. -/
theorem mem_sources_walkBelow (h : f ∈ (t.walkBelow cwd c root l).sources) :
    ∃ names e, (names, e) ∈ t.below l ∧
      t.notice cwd c root (names, e) = some (.ok (.source f)) := by
  obtain ⟨⟨names, e⟩, hm, hn⟩ := List.mem_filterMap.1 (mem_sources_ofSteps h)
  exact ⟨names, e, hm, hn⟩

theorem sourceAt_of_notice (habs : root.isAbsolute) (hr : t.locate cwd .use root = .ok l)
    (hl : t.get? l = some .dir) (hm : (names, e) ∈ t.below l)
    (hn : t.notice cwd c root (names, e) = some (.ok (.source f))) :
    ∃ init n, names = init ++ [n] ∧ t.SourceAt cwd c f (l ++ init) n := by
  obtain ⟨hne, hg⟩ := mem_below.1 hm
  obtain ⟨rfl, -, hname, hentry⟩ := notice_eq_source.1 hn
  obtain ⟨init, n, rfl⟩ := (List.eq_nil_or_concat names).resolve_left hne
  rw [List.concat_eq_append] at *
  refine ⟨init, n, rfl, enters_descendant habs hr hl (by simp [hg]), by simpa using hname, ?_⟩
  rw [List.append_assoc, hg]
  rcases hentry with ⟨b, rfl⟩ | ⟨⟨q, rfl⟩, hf⟩
  · exact .inl ⟨b, rfl⟩
  · exact .inr ⟨⟨q, rfl⟩, hf⟩

/-- **Every source found is one.** -/
theorem exists_sourceAt (h : f ∈ (t.survey cwd c root).sources) :
    ∃ d n, t.SourceAt cwd c f d n := by
  obtain ⟨habs, l, hr, ⟨rfl, hname, b, hb⟩ | ⟨hl, hf⟩⟩ := mem_sources_survey h
  · have hres := resolves_of_locate hr
    obtain ⟨front, d, n, hs, hfront, hd, e, he, hel⟩ :=
      hres.exists_last (by simp [start_of_isAbsolute habs]) hb
    refine ⟨d, n, ⟨hd, front, hs, hfront⟩, ?_, ?_⟩
    · simpa [Path.rootName, Path.fileName?_of_steps hs] using hname
    · have hfile : t.isFile cwd f := by
        simp [isFile, status, entryAt_eq_ok.2 ⟨l, hr, hb⟩]
      cases e with
      | link q => exact .inr ⟨⟨q, he⟩, hfile⟩
      | file b' => exact .inl ⟨b', he⟩
      | dir => simp [← hel (by simp), he] at hb
  · obtain ⟨names, e, hm, hn⟩ := mem_sources_walkBelow hf
    obtain ⟨init, n, -, hat⟩ := sourceAt_of_notice habs hr hl hm hn
    exact ⟨_, n, hat⟩

/-- Two sources in one directory are one, or their paths go on alike from the root to it. -/
theorem mem_sources_beside {n' : Bytes} (hf : f ∈ (t.survey cwd c root).sources)
    (hg : g ∈ (t.survey cwd c root).sources) (hfn : t.Enters cwd f d n)
    (hgn : t.Enters cwd g d n') :
    f = g ∧ n = n' ∨
      ∃ init, f = root.descendant (init ++ [n]) ∧ g = root.descendant (init ++ [n']) := by
  obtain ⟨habs, l, hr, hf⟩ := mem_sources_survey hf
  obtain ⟨-, l', hr', hg⟩ := mem_sources_survey hg
  obtain rfl := Except.ok.inj (hr.symm.trans hr')
  rcases hf with ⟨rfl, -, b, hb⟩ | ⟨hl, hf⟩ <;> rcases hg with ⟨rfl, -, b', hb'⟩ | ⟨hl', hg⟩
  · exact .inl ⟨rfl, (enters_unique hfn hgn).2⟩
  · simp [hb] at hl'
  · simp [hb'] at hl
  · obtain ⟨names, e, hm, hn⟩ := mem_sources_walkBelow hf
    obtain ⟨names', e', hm', hn'⟩ := mem_sources_walkBelow hg
    obtain ⟨init, m, rfl, hat⟩ := sourceAt_of_notice habs hr hl hm hn
    obtain ⟨init', m', rfl, hat'⟩ := sourceAt_of_notice habs hr hl hm' hn'
    obtain ⟨hd, rfl⟩ := enters_unique hat.enters hfn
    obtain ⟨hd', rfl⟩ := enters_unique hat'.enters hgn
    obtain rfl := List.append_cancel_left (hd.trans hd'.symm)
    exact .inr ⟨init, (notice_eq_source.1 hn).1, (notice_eq_source.1 hn').1⟩

/-- **One source has one path.** -/
theorem eq_of_enters (hf : f ∈ (t.survey cwd c root).sources)
    (hg : g ∈ (t.survey cwd c root).sources) (hfn : t.Enters cwd f d n)
    (hgn : t.Enters cwd g d n) : f = g := by
  rcases mem_sources_beside hf hg hfn hgn with ⟨rfl, -⟩ | ⟨init, rfl, rfl⟩ <;> rfl

/-! ## Order -/

theorem lt_of_append_lt {names' : Location} (h : l ++ names < l ++ names') : names < names' := by
  induction l with
  | nil => exact h
  | cons m l ih => exact ih (List.cons_lt_cons_self.1 h)

theorem sorted_below (t : Tree) (l : Location) :
    (t.below l).Pairwise fun a b => a.1 < b.1 := by
  rw [below, List.pairwise_filterMap]
  refine t.sorted.imp ?_
  rintro ⟨m, e⟩ ⟨m', e'⟩ hlt ⟨names, f⟩ h ⟨names', f'⟩ h'
  dsimp only at h h'
  split_ifs at h h' with hp hp'
  simp only [Bool.and_eq_true, List.isPrefixOf_iff_prefix] at hp hp'
  obtain ⟨⟨s, rfl⟩, -⟩ := hp
  obtain ⟨⟨s', rfl⟩, -⟩ := hp'
  simp only [List.drop_left, Option.some.injEq, Prod.mk.injEq] at h h'
  obtain ⟨rfl, -⟩ := h
  obtain ⟨rfl, -⟩ := h'
  exact lt_of_append_lt hlt

theorem pairwise_sources_ofSteps {R : Path → Path → Prop} {steps : List (Except Failure Finding)}
    (h : steps.Pairwise fun x y => ∀ f g, x = .ok (.source f) → y = .ok (.source g) → R f g) :
    (Walk.ofSteps steps).sources.Pairwise R := by
  induction steps with
  | nil => simp [Walk.ofSteps, Walk.sources]
  | cons x rest ih =>
    rw [List.pairwise_cons] at h
    cases x with
    | error err => simp [Walk.ofSteps, Walk.refused, Walk.sources]
    | ok finding =>
      cases finding with
      | excluded path =>
        rw [Walk.sources, Walk.ofSteps, List.filterMap_cons_none rfl]
        exact ih h.2
      | source path =>
        have hs : (Walk.ofSteps (.ok (.source path) :: rest)).sources =
            path :: (Walk.ofSteps rest).sources := by
          simp [Walk.ofSteps, Walk.sources, Finding.source?]
        rw [hs, List.pairwise_cons]
        exact ⟨fun g hg => h.1 _ (mem_sources_ofSteps hg) path g rfl rfl, ih h.2⟩

/-- One source comes before another: its location does. -/
def Before (t : Tree) (cwd : Location) (f g : Path) : Prop :=
  ∀ d n d' n', t.Enters cwd f d n → t.Enters cwd g d' n' → d ++ [n] < d' ++ [n']

/-- **The sources are found in the order of their locations.** -/
theorem sorted_sources (t : Tree) (cwd : Location) (c : Config) (root : Path) :
    (t.survey cwd c root).sources.Pairwise (t.Before cwd) := by
  rcases survey_cases t cwd c root with hs | ⟨habs, l, hr, ⟨-, -, hs⟩ | ⟨hl, hs⟩⟩
  · simp [hs]
  · simp [hs, Walk.sources, Finding.source?]
  · rw [hs]
    refine pairwise_sources_ofSteps ?_
    rw [List.pairwise_filterMap]
    refine (sorted_below t l).imp_of_mem ?_
    rintro ⟨names, e⟩ ⟨names', e'⟩ hm hm' hlt x hx y hy f g rfl rfl d n d' n' hf hg
    obtain ⟨init, m, rfl, hat⟩ := sourceAt_of_notice habs hr hl hm hx
    obtain ⟨init', m', rfl, hat'⟩ := sourceAt_of_notice habs hr hl hm' hy
    obtain ⟨rfl, rfl⟩ := enters_unique hat.enters hf
    obtain ⟨rfl, rfl⟩ := enters_unique hat'.enters hg
    rw [List.append_assoc, List.append_assoc]
    exact List.append_left_lt hlt

/-- **No source is found twice.** -/
theorem nodup_sources (t : Tree) (cwd : Location) (c : Config) (root : Path) :
    (t.survey cwd c root).sources.Nodup := by
  refine (sorted_sources t cwd c root).imp_of_mem ?_
  rintro f g hf - hfg rfl
  obtain ⟨d, n, hat⟩ := exists_sourceAt hf
  exact List.lt_irrefl _ (hfg d n d n hat.enters hat.enters)

/-! ## All sources are found -/

/-- The source that a step of a walk has found. -/
def found? : Except Failure Finding → Option Path
  | .ok finding => finding.source?
  | .error _ => none

/-- A walk that is complete has found what its steps have found. -/
theorem sources_ofSteps {steps : List (Except Failure Finding)}
    (ho : (Walk.ofSteps steps).obstacle = none) :
    (Walk.ofSteps steps).sources = steps.filterMap found? := by
  induction steps with
  | nil => rfl
  | cons x rest ih =>
    cases x with
    | error e => simp [Walk.ofSteps, Walk.refused] at ho
    | ok finding =>
      rw [List.filterMap_cons, ← ih ho]
      show (finding :: (Walk.ofSteps rest).findings).filterMap Finding.source? = _
      rw [List.filterMap_cons]
      rfl

theorem mem_sources_of_mem {steps : List (Except Failure Finding)}
    (ho : (Walk.ofSteps steps).obstacle = none) (h : .ok (.source f) ∈ steps) :
    f ∈ (Walk.ofSteps steps).sources := by
  rw [sources_ofSteps ho]
  exact List.mem_filterMap.2 ⟨_, h, rfl⟩

/-- **What stands beside a source and has the extension is a source**, if the walk is complete. -/
theorem exists_beside {b : Bytes} {n' : Bytes} (habs : root.isAbsolute)
    (hr : t.locate cwd .use root = .ok l) (hl : t.get? l = some .dir)
    (ho : (t.walkBelow cwd c root l).obstacle = none)
    (hf : f ∈ (t.walkBelow cwd c root l).sources) (hfn : t.Enters cwd f d n)
    (hn' : c.isSourceName n') (hb : t.get? (d ++ [n']) = some (.file b)) :
    ∃ g ∈ (t.walkBelow cwd c root l).sources, t.Enters cwd g d n' := by
  obtain ⟨names, e, hm, hn⟩ := mem_sources_walkBelow hf
  obtain ⟨init, m, rfl, hat⟩ := sourceAt_of_notice habs hr hl hm hn
  obtain ⟨rfl, rfl⟩ := enters_unique hat.enters hfn
  -- The two stand in one directory, so none is excluded if the other is not.
  have hexcluded := (notice_eq_source.1 hn).2.1
  rw [List.append_assoc] at hb
  have hm' : (init ++ [n'], Entry.file b) ∈ t.below l := mem_below.2 ⟨by simp, hb⟩
  refine ⟨root.descendant (init ++ [n']), mem_sources_of_mem ho ?_,
    enters_descendant habs hr hl (by simp [hb])⟩
  refine List.mem_filterMap.2
    ⟨_, hm', notice_eq_source.2 ⟨rfl, ?_, by simpa using hn', .inl ⟨b, rfl⟩⟩⟩
  simpa using hexcluded

/-! ## Walks of trees that are alike -/

/-- **Two trees have the same directories and the same sources**, by their names. -/
structure Alike (c : Config) (t t' : Tree) : Prop where
  /-- The same directories. -/
  dir : ∀ m, t.get? m = some .dir ↔ t'.get? m = some .dir
  /-- The same names of sources. -/
  source : ∀ m n, c.isSourceName n →
    ((∃ b, t.get? (m ++ [n]) = some (.file b)) ↔ ∃ b, t'.get? (m ++ [n]) = some (.file b))

/-- The part of an entry that a walk through a tree without links takes notice of. -/
def noticed? (c : Config) : Location × Entry → Option (Location × Entry)
  | (names, .dir) => some (names, .dir)
  | (names, .file _) =>
    if c.isSourceName (names.getLast?.getD []) then some (names, .file []) else none
  | (_, .link _) => none

theorem status_of_enters (h : t.Enters cwd p d n) (hg : t.get? (d ++ [n]) = some .dir) :
    t.status cwd p = match refusal? p with | some err => .error err | none => .ok .dir := by
  have hn : n.length ≤ nameLimit := length_le_of_isName (isName_of_get? hg n (by simp))
  cases ha : refusal? p with
  | some err => simp [status, entryAt, locate, ha, bind, Except.bind]
  | none =>
    have hname : t.Names cwd p (d ++ [n]) := ⟨ha, ⟨d, n, rfl, hn, h⟩, by simp [hg]⟩
    exact entryAt_eq_ok.2 ⟨_, hname.locate .use, hg⟩

theorem Alike.extends (h : Alike c t t') (ht : t.LinkFree) : t'.Extends t := by
  intro m e hm he
  cases e with
  | dir => exact (h.dir m).1 hm
  | file b => exact absurd rfl (he b)
  | link q => exact absurd hm (ht m q)

/-- What the walk takes no notice of may be left out before. -/
theorem walkBelow_eq (ht : t.LinkFree) : t.walkBelow cwd c root l =
    .ofSteps (((t.below l).filterMap (noticed? c)).filterMap (t.notice cwd c root)) := by
  rw [walkBelow, List.filterMap_filterMap]
  refine congrArg _ (List.filterMap_congr ?_)
  rintro ⟨names, e⟩ hx
  cases e with
  | dir => rfl
  | file b =>
    cases hn : c.isSourceName (names.getLast?.getD []) <;> simp [noticed?, notice, hn]
  | link q => exact absurd (mem_below.1 hx).2 (ht _ q)

theorem mem_noticed : (names, e) ∈ (t.below l).filterMap (noticed? c) ↔
    names ≠ [] ∧ (e = .dir ∧ t.get? (l ++ names) = some .dir ∨
      e = .file [] ∧ c.isSourceName (names.getLast?.getD []) ∧
        ∃ b, t.get? (l ++ names) = some (.file b)) := by
  rw [List.mem_filterMap]
  constructor
  · rintro ⟨⟨names', e'⟩, hm, hx⟩
    obtain ⟨hne, hg⟩ := mem_below.1 hm
    cases e' with
    | dir =>
      obtain ⟨rfl, rfl⟩ := Prod.mk.inj (Option.some.inj hx)
      exact ⟨hne, .inl ⟨rfl, hg⟩⟩
    | file b =>
      rw [noticed?] at hx
      split_ifs at hx with hn
      obtain ⟨rfl, rfl⟩ := Prod.mk.inj (Option.some.inj hx)
      exact ⟨hne, .inr ⟨rfl, hn, b, hg⟩⟩
    | link q => simp [noticed?] at hx
  · rintro ⟨hne, ⟨rfl, hg⟩ | ⟨rfl, hn, b, hg⟩⟩
    · exact ⟨(names, .dir), mem_below.2 ⟨hne, hg⟩, rfl⟩
    · exact ⟨(names, .file b), mem_below.2 ⟨hne, hg⟩, by simp [noticed?, hn]⟩

theorem sorted_noticed (t : Tree) (l : Location) (c : Config) :
    ((t.below l).filterMap (noticed? c)).Pairwise fun a b => a.1 < b.1 := by
  rw [List.pairwise_filterMap]
  have hfst : ∀ {x y : Location × Entry}, noticed? c x = some y → y.1 = x.1 := by
    rintro ⟨names, _ | _ | _⟩ y h <;> simp only [noticed?] at h
    · split_ifs at h
      cases h
      rfl
    · cases h
      rfl
    · cases h
  exact (sorted_below t l).imp fun hlt a ha b hb => by rwa [hfst ha, hfst hb]

theorem noticed_congr (h : Alike c t t') :
    (t'.below l).filterMap (noticed? c) = (t.below l).filterMap (noticed? c) := by
  -- Both lists are in order, so it is enough that they have the same members.
  refine listing_unique (sorted_noticed t' l c) (sorted_noticed t l c) ?_
  rintro ⟨names, e⟩
  rw [mem_noticed, mem_noticed, and_congr_right_iff]
  intro hne
  obtain ⟨init, n, rfl⟩ := (List.eq_nil_or_concat names).resolve_left hne
  rw [List.concat_eq_append, ← List.append_assoc, List.getLast?_concat, Option.getD_some]
  rw [h.dir]
  refine or_congr Iff.rfl (and_congr_right fun _ => and_congr_right fun hn => ?_)
  exact (h.source _ n hn).symm

/-- **Directories that are alike are walked alike.** -/
theorem walkBelow_congr (ht : t.LinkFree) (ht' : t'.LinkFree) (h : Alike c t t')
    (habs : root.isAbsolute) (hr : t.locate cwd .use root = .ok l) (hl : t.get? l = some .dir) :
    t'.walkBelow cwd c root l = t.walkBelow cwd c root l := by
  rw [walkBelow_eq ht, walkBelow_eq ht', noticed_congr h]
  refine congrArg _ (List.filterMap_congr ?_)
  rintro ⟨names, e⟩ hx
  obtain ⟨hne, ⟨rfl, hg⟩ | ⟨rfl, -⟩⟩ := mem_noticed.1 hx
  · obtain ⟨init, n, rfl⟩ := (List.eq_nil_or_concat names).resolve_left hne
    rw [List.concat_eq_append] at *
    have henters : t.Enters cwd (root.descendant (init ++ [n])) (l ++ init) n :=
      enters_descendant habs hr hl (by simp [hg])
    rw [← List.append_assoc] at hg
    have hs := status_of_enters henters hg
    have hs' := status_of_enters (henters.mono (h.extends ht)) ((h.dir _).1 hg)
    simp only [notice, hs, hs']
  · rfl

theorem Resolves.inspect {b : Nat} {here : Location} {steps : List Path.Step} (ht : t.LinkFree)
    (h : t.Resolves .use b here steps l) : t.Resolves .inspect b here steps l := by
  induction h with
  | here => exact .here
  | stay _ ih => exact .stay ih
  | slash _ ih => exact .slash ih
  | up _ ih => exact .up ih
  | free hn hg => exact .free hn hg
  | file hn hg => exact .file hn hg
  | enter _ hn hg _ ih => exact .enter (by simp) hn hg ih
  | take _ hg => exact absurd hg (ht _ _)
  | link _ _ hg => exact absurd hg (ht _ _)

theorem locate_inspect (ht : t.LinkFree) (h : t.locate cwd .use p = .ok l) :
    t.locate cwd .inspect p = .ok l := by
  obtain ⟨ha, hr⟩ := locate_eq_ok.1 h
  exact locate_eq_ok.2 ⟨ha, hr.inspect ht⟩

theorem locate_of_extends (he : t'.Extends t) (h : t.locate cwd .use p = .ok l)
    (hl : ∃ e, t.get? l = some e ∧ ∀ b, e = .file b → ∃ b', t'.get? l = some (.file b')) :
    t'.locate cwd .use p = .ok l := by
  obtain ⟨ha, hr⟩ := locate_eq_ok.1 h
  exact locate_eq_ok.2 ⟨ha, hr.mono he hl⟩

/-- What the walk without links does at a root that is a directory. -/
theorem survey_of_dir (ht : t.LinkFree) (habs : root.isAbsolute)
    (hr : t.locate cwd .use root = .ok l) (hl : t.get? l = some .dir) :
    t.survey cwd c root = if root.rootName = c.excludedName then { findings := [.excluded root] }
      else t.walkBelow cwd c root l := by
  have hi := locate_inspect ht hr
  simp [survey, habs, Tree.inspect, entryAt_eq_ok.2 ⟨l, hi, hl⟩, hi]

theorem survey_of_file {b : Bytes} (ht : t.LinkFree) (habs : root.isAbsolute)
    (hr : t.locate cwd .use root = .ok l) (hl : t.get? l = some (.file b)) :
    t.survey cwd c root =
      { findings := if c.isSourceName root.rootName then [.source root] else [] } := by
  have hi := locate_inspect ht hr
  simp [survey, habs, Tree.inspect, entryAt_eq_ok.2 ⟨l, hi, hl⟩]

/-- **Trees that are alike are walked alike** from a directory. -/
theorem survey_congr (ht : t.LinkFree) (ht' : t'.LinkFree) (h : Alike c t t')
    (habs : root.isAbsolute) (hr : t.locate cwd .use root = .ok l) (hl : t.get? l = some .dir) :
    t'.survey cwd c root = t.survey cwd c root := by
  have hr' := locate_of_extends (h.extends ht) hr ⟨_, hl, by simp⟩
  rw [survey_of_dir ht habs hr hl, survey_of_dir ht' habs hr' ((h.dir l).1 hl),
    walkBelow_congr ht ht' h habs hr hl]

/-- A file is found as before while it is a file. -/
theorem survey_congr_of_file {b b' : Bytes} (ht : t.LinkFree) (ht' : t'.LinkFree)
    (he : t'.Extends t) (habs : root.isAbsolute) (hr : t.locate cwd .use root = .ok l)
    (hl : t.get? l = some (.file b)) (hl' : t'.get? l = some (.file b')) :
    t'.survey cwd c root = t.survey cwd c root := by
  have hr' := locate_of_extends he hr ⟨_, hl, fun _ _ => ⟨b', hl'⟩⟩
  rw [survey_of_file ht habs hr hl, survey_of_file ht' habs hr' hl']

end Tree

end SourceCoding
