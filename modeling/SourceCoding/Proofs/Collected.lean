import SourceCoding.Proofs.CleanPass

/-!
# What is collected

The sources that are collected from a root are told by the names that lead to them. All names but
the last are those of directories, no directory on the way is passed over, and the last name is that
of a file, or of a link to one, and has the extension. The names come in lexicographic order, so
what is in a directory comes before a file whose name goes on after that of the directory.

A directory is opened by its path. One with a path that is too long ends the walk, and then nothing
is collected.

## Main definitions

* `Tree.Collected`: the names that lead from a root to a source

## Main results

* `openable_of_obstacle`: a walk that is complete has opened all directories on its way
* `exists_names`: the sources of a complete walk, by their names
* `collect_exact`: what is collected, and when nothing is
* `collect_fails_of_many_slashes`: a directory with a short name and a long path
-/

namespace SourceCoding

/-! ## The steps of a walk -/

/-- A step that fails ends the walk, if no other one has ended it before. -/
theorem Walk.exists_obstacle {steps : List (Except Failure Finding)} {e : Failure}
    (h : .error e ∈ steps) :
    ∃ e', .error e' ∈ steps ∧ (Walk.ofSteps steps).obstacle = some e' := by
  induction steps with
  | nil => simp at h
  | cons x rest ih =>
    cases x with
    | error e' => exact ⟨e', List.mem_cons_self, rfl⟩
    | ok finding =>
      obtain ⟨e', he', ho⟩ := ih (by simpa using h)
      exact ⟨e', List.mem_cons_of_mem _ he', ho⟩

namespace Tree

variable {t : Tree} {cwd l : Location} {c : Config} {root : Path} {x : Location}

/-! ## Directories that cannot be opened -/

theorem notice_eq_error {y : Location × Entry} {e : Failure}
    (h : t.notice cwd c root y = some (.error e)) : ∃ path cause, e = .walk path cause := by
  obtain ⟨names, entry⟩ := y
  cases entry with
  | file b =>
    unfold notice at h
    dsimp only at h
    split_ifs at h
    cases h
  | link q =>
    unfold notice at h
    dsimp only at h
    split_ifs at h
    cases h
  | dir =>
    unfold notice at h
    dsimp only at h
    split_ifs at h
    · cases h
    · cases hs : t.status cwd (root.descendant names) with
      | ok e' => simp [hs] at h
      | error cause =>
        rw [hs] at h
        cases h
        exact ⟨_, _, rfl⟩

/-- **A walk that is complete has opened all directories on its way.** -/
theorem openable_of_obstacle (habs : root.isAbsolute) (hr : t.locate cwd .use root = .ok l)
    (hl : t.get? l = some .dir) (ho : (t.walkBelow cwd c root l).obstacle = none) :
    t.Openable cwd c root := by
  intro l' names hr' hm hx
  obtain rfl := Except.ok.inj (hr.symm.trans hr')
  by_contra hlong
  obtain ⟨cause, hcause⟩ : ∃ cause, refusal? (root.descendant names) = some cause := by
    rw [← Option.ne_none_iff_exists']
    intro hnone
    exact hlong (refusal?_eq_none.1 hnone).2.2
  have hnotice := notice_dir habs hr hl hm hx
  rw [hcause] at hnotice
  obtain ⟨e', -, ho'⟩ := Walk.exists_obstacle (List.mem_filterMap.2 ⟨_, hm, hnotice⟩)
  rw [walkBelow, ho'] at ho
  cases ho

theorem obstacle_eq_walk {e : Failure} (h : (t.walkBelow cwd c root l).obstacle = some e) :
    ∃ path cause, e = .walk path cause := by
  by_cases hsteps : ∀ e', .error e' ∉ (t.below l).filterMap (t.notice cwd c root)
  · rw [walkBelow, obstacle_ofSteps hsteps] at h
    cases h
  · push Not at hsteps
    obtain ⟨e₀, he₀⟩ := hsteps
    obtain ⟨e', he', ho⟩ := Walk.exists_obstacle he₀
    obtain rfl := Option.some.inj (ho.symm.trans h)
    obtain ⟨y, -, hy⟩ := List.mem_filterMap.1 he'
    exact notice_eq_error hy

/-! ## Sources by their names -/

/-- **The names that lead from a root to a source.** -/
inductive Collected (t : Tree) (cwd : Location) (c : Config) (root : Path) : Location → Prop
  /-- None, where the root is a file or a link to one and its own name has the extension. -/
  | root (hfile : t.isFile cwd root) (hnamed : c.isSourceName root.rootName) :
    Collected t cwd c root []
  /-- Those of directories that are not passed over, below a root that leads to one, and the last
  one with the extension, which a file has or a link to one. -/
  | below {l init : Location} {n : Bytes} (hroot : t.locate cwd .use root = .ok l)
    (hpassed : ¬ t.PassedOver cwd c root) (hdirs : ∀ k, k <+: init → t.get? (l ++ k) = some .dir)
    (hexcluded : c.excludedName ∉ init)
    (hfile : (∃ b, t.get? (l ++ (init ++ [n])) = some (.file b)) ∨
      (∃ q, t.get? (l ++ (init ++ [n])) = some (.link q)) ∧
        t.isFile cwd (root.descendant (init ++ [n])))
    (hnamed : c.isSourceName n) : Collected t cwd c root (init ++ [n])

theorem notice_bind_found? {y : Location × Entry} {f : Path} :
    (t.notice cwd c root y).bind found? = some f ↔
      t.notice cwd c root y = some (.ok (.source f)) ∧ f = root.descendant y.1 := by
  obtain ⟨names, e⟩ := y
  constructor
  · intro h
    obtain ⟨step, hstep, hf⟩ := Option.bind_eq_some_iff.1 h
    rcases step with failure | ⟨f'⟩ | _
    · cases hf
    · obtain rfl := Option.some.inj hf
      exact ⟨hstep, (notice_eq_source.1 hstep).1⟩
    · cases hf
  · rintro ⟨hstep, -⟩
    rw [hstep]
    rfl

/-- **The sources of a complete walk**, by their names. -/
theorem exists_names (ho : (t.walkBelow cwd c root l).obstacle = none) :
    ∃ names : List Location, (t.walkBelow cwd c root l).sources = names.map root.descendant ∧
      names.Pairwise (· < ·) ∧ ∀ x, x ∈ names ↔ ∃ e, (x, e) ∈ t.below l ∧
        t.notice cwd c root (x, e) = some (.ok (.source (root.descendant x))) := by
  refine ⟨(t.below l).filterMap fun y => ((t.notice cwd c root y).bind found?).map
    fun _ => y.1, ?_, ?_, fun x => ?_⟩
  · rw [walkBelow, sources_ofSteps ho, List.filterMap_filterMap, List.map_filterMap]
    refine List.filterMap_congr fun y _ => ?_
    cases hf : (t.notice cwd c root y).bind found? with
    | none => rfl
    | some f => simp [(notice_bind_found?.1 hf).2]
  · rw [List.pairwise_filterMap]
    refine (sorted_below t l).imp fun hlt x hx x' hx' => ?_
    obtain ⟨-, -, rfl⟩ := Option.map_eq_some_iff.1 hx
    obtain ⟨-, -, rfl⟩ := Option.map_eq_some_iff.1 hx'
    exact hlt
  · rw [List.mem_filterMap]
    constructor
    · rintro ⟨⟨x', e⟩, hm, hx⟩
      obtain ⟨f, hf, rfl⟩ := Option.map_eq_some_iff.1 hx
      obtain ⟨hstep, rfl⟩ := notice_bind_found?.1 hf
      exact ⟨e, hm, hstep⟩
    · rintro ⟨e, hm, hstep⟩
      refine ⟨(x, e), hm, ?_⟩
      rw [notice_bind_found?.2 ⟨hstep, rfl⟩]
      rfl

/-- The walk through a directory takes for sources what the names that lead there make sources. -/
theorem collected_iff_of_dir (hr : t.locate cwd .use root = .ok l) (hl : t.get? l = some .dir)
    (hx : ¬ t.PassedOver cwd c root) :
    t.Collected cwd c root x ↔ ∃ e, (x, e) ∈ t.below l ∧
      t.notice cwd c root (x, e) = some (.ok (.source (root.descendant x))) := by
  constructor
  · rintro (⟨hfile, -⟩ | ⟨hroot, -, -, hexcluded, hfile, hnamed⟩)
    · simp [isFile, status, entryAt_eq_ok.2 ⟨l, hr, hl⟩] at hfile
    · obtain rfl := Except.ok.inj (hroot.symm.trans hr)
      rcases hfile with ⟨b, hb⟩ | ⟨⟨q, hq⟩, hfile⟩
      · exact ⟨.file b, mem_below.2 ⟨by simp, hb⟩,
          notice_eq_source.2 ⟨rfl, by simpa using hexcluded, by simpa using hnamed, .inl ⟨b, rfl⟩⟩⟩
      · exact ⟨.link q, mem_below.2 ⟨by simp, hq⟩, notice_eq_source.2
          ⟨rfl, by simpa using hexcluded, by simpa using hnamed, .inr ⟨⟨q, rfl⟩, hfile⟩⟩⟩
  · rintro ⟨e, hm, hstep⟩
    obtain ⟨hne, hg⟩ := mem_below.1 hm
    obtain ⟨-, hexcluded, hnamed, hentry⟩ := notice_eq_source.1 hstep
    obtain ⟨init, n, rfl⟩ := (List.eq_nil_or_concat x).resolve_left hne
    rw [List.concat_eq_append] at *
    refine .below hr hx ?_ (by simpa using hexcluded) ?_ (by simpa using hnamed)
    · rintro k ⟨rest, rfl⟩
      refine get?_of_append (s := rest ++ [n]) (by simp) ?_
      simpa using Option.ne_none_iff_exists'.2 ⟨e, hg⟩
    · rw [hg]
      rcases hentry with ⟨b, rfl⟩ | ⟨⟨q, rfl⟩, hfile⟩
      · exact .inl ⟨b, rfl⟩
      · exact .inr ⟨⟨q, rfl⟩, hfile⟩

theorem collected_iff_of_file {b : Bytes} (hs : t.status cwd root = .ok (.file b)) :
    t.Collected cwd c root x ↔ x = [] ∧ c.isSourceName root.rootName := by
  constructor
  · rintro (⟨-, hnamed⟩ | ⟨hroot, -, hdirs, -, -, -⟩)
    · exact ⟨rfl, hnamed⟩
    · obtain ⟨l', hr, hl'⟩ := entryAt_eq_ok.1 hs
      obtain rfl := Except.ok.inj (hroot.symm.trans hr)
      have hdir := hdirs [] List.nil_prefix
      rw [List.append_nil, hl'] at hdir
      cases hdir
  · rintro ⟨rfl, hnamed⟩
    exact .root (by simp [isFile, hs]) hnamed

theorem not_collected (hx : t.PassedOver cwd c root) : ¬ t.Collected cwd c root x := by
  rintro (⟨hfile, -⟩ | ⟨-, hpassed, -, -, -, -⟩)
  · obtain ⟨l, hl, he⟩ := entryAt_eq_ok.1 hx.1
    simp [isFile, status, entryAt_eq_ok.2 ⟨l, locate_use hl (by simp [he]), he⟩] at hfile
  · exact hpassed hx

/-! ## From a root -/

/-- A root that leads nowhere ends the walk at once. -/
theorem survey_of_leads_nowhere (habs : root.isAbsolute) (hs : ∀ e, t.status cwd root ≠ .ok e) :
    ∃ cause, t.survey cwd c root = .refused (.walk root cause) := by
  cases hi : t.inspect cwd root with
  | error cause => exact ⟨cause, by simp [survey, habs, hi]⟩
  | ok e =>
    obtain ⟨l, hl, he⟩ := entryAt_eq_ok.1 hi
    -- What is looked at is a link, since anything else is what the root leads to.
    obtain ⟨q, rfl⟩ : ∃ q, e = .link q := by
      by_contra hnone
      push Not at hnone
      have hne : ∀ q, t.get? l ≠ some (.link q) := by
        intro q hq
        exact hnone q (Option.some.inj (he.symm.trans hq))
      exact hs e (entryAt_eq_ok.2 ⟨l, locate_use hl hne, he⟩)
    cases hstatus : t.status cwd root with
    | ok e' => exact absurd hstatus (hs e')
    | error cause => exact ⟨cause, by simp [survey, habs, hi, hstatus]⟩

/-- **The walk from a root that leads somewhere** finds exactly what the names of the sources lead
to, unless a directory cannot be opened. -/
theorem survey_exact (habs : root.isAbsolute) (hs : ∃ e, t.status cwd root = .ok e) :
    (t.PassedOver cwd c root ∨ t.Openable cwd c root → (t.survey cwd c root).obstacle = none ∧
      ∃ names : List Location, (t.survey cwd c root).sources = names.map root.descendant ∧
        names.Pairwise (· < ·) ∧ ∀ x, x ∈ names ↔ t.Collected cwd c root x) ∧
    (¬ (t.PassedOver cwd c root ∨ t.Openable cwd c root) →
      ∃ path cause, (t.survey cwd c root).obstacle = some (.walk path cause)) := by
  obtain ⟨e, hs⟩ := hs
  by_cases hx : t.PassedOver cwd c root
  · refine ⟨fun _ => ?_, fun hnot => absurd (.inl hx) hnot⟩
    rw [survey_of_passedOver habs hx]
    exact ⟨rfl, [], rfl, .nil, fun x => iff_of_false List.not_mem_nil (not_collected hx)⟩
  rw [or_iff_right hx]
  cases e with
  | link q => exact absurd hs (status_ne_link habs q)
  | file b =>
    obtain ⟨l, hr, hl⟩ := entryAt_eq_ok.1 hs
    have ho : t.Openable cwd c root := by
      intro l' names hr' hm
      obtain rfl := Except.ok.inj (hr.symm.trans hr')
      obtain ⟨hne, hg⟩ := mem_below.1 hm
      rw [get?_beneath (by simp [hl]) hne] at hg
      cases hg
    refine ⟨fun _ => ?_, fun hnot => absurd ho hnot⟩
    rw [survey_of_leads_file habs hs]
    cases hn : c.isSourceName root.rootName with
    | false => exact ⟨rfl, [], rfl, .nil, fun x => by rw [collected_iff_of_file hs]; simp [hn]⟩
    | true =>
      refine ⟨rfl, [[]], ?_, List.pairwise_singleton .., fun x => ?_⟩
      · rw [List.map_singleton, Path.descendant_nil]
        rfl
      · rw [collected_iff_of_file hs]
        simp [hn]
  | dir =>
    obtain ⟨l, hr, hl⟩ := entryAt_eq_ok.1 hs
    rw [survey_of_leads_dir habs hr hl hx]
    constructor
    · intro ho
      have hcomplete := obstacle_walkBelow habs hr hl ho
      obtain ⟨names, hsources, hsorted, hmem⟩ := exists_names hcomplete
      refine ⟨hcomplete, names, hsources, hsorted, fun x => ?_⟩
      rw [hmem, collected_iff_of_dir hr hl hx]
    · intro hnot
      cases ho : (t.walkBelow cwd c root l).obstacle with
      | none => exact absurd (openable_of_obstacle habs hr hl ho) hnot
      | some failure =>
        obtain ⟨path, cause, rfl⟩ := obstacle_eq_walk ho
        exact ⟨path, cause, rfl⟩

end Tree

/-- **What is collected.** From a root that is not absolute nothing is collected, and the failure
says so; from a root that leads nowhere nothing is collected either. From any other root the sources
are collected, each of them once and in the order of their names, unless a directory on the way has
a path that is too long. -/
theorem collect_exact (c : Config) (root : Path) (s : Session) :
    (root.isAbsolute = false → ((collect c root).runIn s).1 = .error (.relative root)) ∧
    (root.isAbsolute → (∀ e, s.tree.status s.cwd root ≠ .ok e) →
      ∃ cause, ((collect c root).runIn s).1 = .error (.walk root cause)) ∧
    (root.isAbsolute → (∃ e, s.tree.status s.cwd root = .ok e) →
      (s.tree.PassedOver s.cwd c root ∨ s.tree.Openable s.cwd c root →
        ∃ names : List Location, ((collect c root).runIn s).1 = .ok (names.map root.descendant) ∧
          names.Pairwise (· < ·) ∧ (names.map root.descendant).Nodup ∧
          ∀ x, x ∈ names ↔ s.tree.Collected s.cwd c root x) ∧
      (¬ (s.tree.PassedOver s.cwd c root ∨ s.tree.Openable s.cwd c root) →
        ∃ path cause, ((collect c root).runIn s).1 = .error (.walk path cause))) := by
  rw [runIn_collect]
  refine ⟨fun hrel => ?_, fun habs hs => ?_, fun habs hs => ⟨fun ho => ?_, fun ho => ?_⟩⟩
  · have hsurvey : s.tree.survey s.cwd c root = .refused (.relative root) := by
      simp [Tree.survey, hrel]
    rw [hsurvey]
    rfl
  · obtain ⟨cause, hsurvey⟩ := Tree.survey_of_leads_nowhere (c := c) habs hs
    rw [hsurvey]
    exact ⟨cause, rfl⟩
  · obtain ⟨hcomplete, names, hsources, hsorted, hmem⟩ := (Tree.survey_exact habs hs).1 ho
    refine ⟨names, ?_, hsorted, ?_, hmem⟩
    · rw [hcomplete, ← hsources]
    · rw [← hsources]
      exact s.tree.nodup_sources s.cwd c root
  · obtain ⟨path, cause, hobstacle⟩ := (Tree.survey_exact habs hs).2 ho
    rw [hobstacle]
    exact ⟨path, cause, rfl⟩

/-- A source in a directory comes before one whose name goes on after that of the directory. -/
theorem collect_exact_interleaved :
    let t := ((Tree.empty.put [Bytes.ofString "a"] .dir).put
      [Bytes.ofString "a", Bytes.ofString "b.py"] (.file [])).put [Bytes.ofString "a.py"] (.file [])
    ((Path.ofString "/").isAbsolute ∧ t.Openable [] {} (Path.ofString "/")) ∧
    ∃ names : List Location,
      ((collect {} (Path.ofString "/")).runIn ⟨t, [], []⟩).1 =
        .ok (names.map (Path.ofString "/").descendant) ∧
      names.map (Path.ofString "/").descendant =
        [Path.ofString "/a/b.py", Path.ofString "/a.py"] ∧
      names.Pairwise (· < ·) ∧ ∀ x, x ∈ names ↔ t.Collected [] {} (Path.ofString "/") x := by
  intro t
  have hopen : t.Openable [] {} (Path.ofString "/") := by
    have hlocate : t.locate [] .use (Path.ofString "/") = .ok [] := by rfl
    have hdir : ∀ y ∈ t.below [], y.2 = .dir →
        ((Path.ofString "/").descendant y.1).bytes.length < pathLimit := by decide +kernel
    intro l names hl hm _
    obtain rfl := Except.ok.inj (hlocate.symm.trans hl)
    exact hdir _ hm rfl
  have habs : (Path.ofString "/").isAbsolute := by decide
  obtain ⟨names, hr, hsorted, -, hmem⟩ :=
    ((collect_exact {} (Path.ofString "/") ⟨t, [], []⟩).2.2 habs ⟨.dir, by rfl⟩).1 (.inr hopen)
  have hsources : ((collect {} (Path.ofString "/")).runIn ⟨t, [], []⟩).1.toOption =
      some [Path.ofString "/a/b.py", Path.ofString "/a.py"] := by decide +kernel
  rw [hr] at hsources
  exact ⟨⟨habs, hopen⟩, names, hr, Option.some.inj hsources, hsorted, hmem⟩

/-- A directory with a common name behind 4090 slashes: the root is there, and nothing below it is a
source, but the walk fails. -/
theorem collect_fails_of_many_slashes :
    (Path.slashes 4090).isAbsolute ∧
      (Tree.empty.put [Bytes.ofString "library"] .dir).status [] (.slashes 4090) = .ok .dir ∧
      ((collect {} (.slashes 4090)).runIn
          ⟨Tree.empty.put [Bytes.ofString "library"] .dir, [], []⟩).1 =
        .error
          (.walk ((Path.slashes 4090).descendant [Bytes.ofString "library"]) .nameTooLong) := by
  refine ⟨Path.isAbsolute_slashes (by decide), ?_, ?_⟩
  · exact Tree.entryAt_eq_ok.2
      ⟨[], Tree.locate_slashes _ _ _ (by decide) (by decide), Tree.get?_nil _⟩
  · rw [runIn_collect, survey_slashes_of_dir (by decide) (by decide) (by decide) (by decide)
      (by decide)]
    rfl

end SourceCoding
