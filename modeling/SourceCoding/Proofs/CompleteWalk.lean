import SourceCoding.Proofs.Sources

/-!
# Walks that are complete

A walk opens every directory that it does not pass over, by the path that leads there from the root.
A directory that the walk has met is there and can be reached, but its path may be too long for the
system, and then the walk ends. If no path is too long the walk is complete, and so all sources are
found.

## Main definitions

* `Tree.Openable`: the directories on the way of the walk have paths that the system takes
* `Tree.PassedOver`: the root is a directory with the excluded name

## Main results

* `survey_of_leads_dir`, `survey_of_leads_file`: the walk from a root that leads somewhere
* `obstacle_survey`: the walk is complete where directories can be opened
-/

namespace SourceCoding

namespace Tree

variable {t : Tree} {cwd l : Location} {c : Config} {root p : Path}

/-- **The directories on the way of the walk** have paths that are not too long. -/
def Openable (t : Tree) (cwd : Location) (c : Config) (root : Path) : Prop :=
  ∀ l names, t.locate cwd .use root = .ok l → (names, .dir) ∈ t.below l →
    c.excludedName ∉ names → (root.descendant names).bytes.length < pathLimit

/-! ## Below a directory -/

theorem obstacle_ofSteps {steps : List (Except Failure Finding)}
    (h : ∀ e, .error e ∉ steps) : (Walk.ofSteps steps).obstacle = none := by
  induction steps with
  | nil => rfl
  | cons x rest ih =>
    cases x with
    | error e => exact absurd List.mem_cons_self (h e)
    | ok finding => exact ih fun e he => h e (List.mem_cons_of_mem _ he)

/-- Names below a root that is taken by the system make a path that is taken, unless it is too
long. -/
theorem refusal?_descendant_of_isName {names : Location} (ha : refusal? root = none)
    (habs : root.isAbsolute) (hnames : ∀ n ∈ names, isName n)
    (hlt : (root.descendant names).bytes.length < pathLimit) :
    refusal? (root.descendant names) = none := by
  refine refusal?_eq_none.2 ⟨?_, ?_, hlt⟩
  · intro h0
    rcases Path.mem_bytes_descendant h0 with h0 | h0 | ⟨n, hn, h0⟩
    · exact (refusal?_eq_none.1 ha).1 h0
    · exact absurd h0 (by decide)
    · have := hnames n hn
      simp [isName, h0] at this
  · intro hnil
    have := Path.isAbsolute_descendant habs names
    simp [Path.isAbsolute, hnil] at this

/-- A path below a root is taken by the system unless it is too long. -/
theorem refusal?_descendant {names : Location} {e : Entry} (hr : t.locate cwd .use root = .ok l)
    (habs : root.isAbsolute) (hg : t.get? (l ++ names) = some e)
    (hlt : (root.descendant names).bytes.length < pathLimit) :
    refusal? (root.descendant names) = none :=
  refusal?_descendant_of_isName (locate_eq_ok.1 hr).1 habs
    (fun n hn => isName_of_get? hg n (List.mem_append_right _ hn)) hlt

/-- **A directory on the way of the walk** is opened, unless the system refuses its path. -/
theorem notice_dir {names : Location} (habs : root.isAbsolute) (hr : t.locate cwd .use root = .ok l)
    (hl : t.get? l = some .dir) (hm : (names, .dir) ∈ t.below l) (hx : c.excludedName ∉ names) :
    t.notice cwd c root (names, .dir) =
      (refusal? (root.descendant names)).map fun cause =>
        .error (.walk (root.descendant names) cause) := by
  obtain ⟨hne, hg⟩ := mem_below.1 hm
  obtain ⟨init, n, rfl⟩ := (List.eq_nil_or_concat names).resolve_left hne
  rw [List.concat_eq_append] at *
  have henters : t.Enters cwd (root.descendant (init ++ [n])) (l ++ init) n :=
    enters_descendant habs hr hl (by simp [hg])
  have hstatus := status_of_enters henters (by simpa using hg)
  rw [List.mem_append, not_or, List.mem_singleton] at hx
  cases ha : refusal? (root.descendant (init ++ [n])) <;> rw [ha] at hstatus <;>
    simp [notice, hx.1, Ne.symm hx.2, hstatus]

/-- A directory that the walk meets can be opened, or it is passed over. -/
theorem notice_of_openable {names : Location} {e : Failure} (habs : root.isAbsolute)
    (hr : t.locate cwd .use root = .ok l) (hl : t.get? l = some .dir)
    (ho : t.Openable cwd c root) (hm : (names, .dir) ∈ t.below l) :
    t.notice cwd c root (names, .dir) ≠ some (.error e) := by
  by_cases hx : c.excludedName ∈ names
  · obtain ⟨init, n, rfl⟩ := (List.eq_nil_or_concat names).resolve_left (mem_below.1 hm).1
    rw [List.concat_eq_append, List.mem_append, List.mem_singleton] at hx
    unfold notice
    rcases hx with hx | rfl
    · simp [hx]
    · by_cases hinit : c.excludedName ∈ init <;> simp [hinit]
  · have hg := (mem_below.1 hm).2
    rw [notice_dir habs hr hl hm hx, refusal?_descendant hr habs hg (ho l names hr hm hx)]
    simp

theorem obstacle_walkBelow (habs : root.isAbsolute) (hr : t.locate cwd .use root = .ok l)
    (hl : t.get? l = some .dir) (ho : t.Openable cwd c root) :
    (t.walkBelow cwd c root l).obstacle = none := by
  refine obstacle_ofSteps fun err herr => ?_
  obtain ⟨⟨names, e⟩, hm, hn⟩ := List.mem_filterMap.1 herr
  cases e with
  | dir => exact notice_of_openable habs hr hl ho hm hn
  | file b =>
    unfold notice at hn
    dsimp only at hn
    split_ifs at hn
    cases hn
  | link q =>
    unfold notice at hn
    dsimp only at hn
    split_ifs at hn
    cases hn

/-! ## From a root -/

/-- What leads to an entry can be looked at, if only at the link in its last place. -/
theorem Resolves.exists_inspect {b : Nat} {here : Location} {steps : List Path.Step} {e : Entry}
    (h : t.Resolves .use b here steps l) (hl : t.get? l = some e) :
    ∃ l' e', t.Resolves .inspect b here steps l' ∧ t.get? l' = some e' := by
  induction h with
  | here => exact ⟨_, e, .here, hl⟩
  | stay _ ih =>
    obtain ⟨l', e', hr, he⟩ := ih hl
    exact ⟨l', e', .stay hr, he⟩
  | slash _ ih =>
    obtain ⟨l', e', hr, he⟩ := ih hl
    exact ⟨l', e', .slash hr, he⟩
  | up _ ih =>
    obtain ⟨l', e', hr, he⟩ := ih hl
    exact ⟨l', e', .up hr, he⟩
  | free _ hg => simp [hg] at hl
  | file hn hg => exact ⟨_, _, .file hn hg, hg⟩
  | enter _ hn hg _ ih =>
    obtain ⟨l', e', hr, he⟩ := ih hl
    exact ⟨l', e', .enter (by simp) hn hg hr, he⟩
  | take _ _ ht => simp [Aim.takesLink] at ht
  | @link _ _ _ _ rest _ _ hn hg _ _ _ ih =>
    by_cases hrest : rest = []
    · subst hrest
      exact ⟨_, _, .take hn hg rfl, hg⟩
    · obtain ⟨l', e', hr, he⟩ := ih hl
      exact ⟨l', e', .link (by simp) hn hg (by simp [hrest]) (by simp) hr, he⟩

theorem exists_inspect {e : Entry} (h : t.status cwd p = .ok e) :
    ∃ e', t.inspect cwd p = .ok e' := by
  obtain ⟨l, hl, he⟩ := entryAt_eq_ok.1 h
  obtain ⟨ha, hr⟩ := locate_eq_ok.1 hl
  obtain ⟨l', e', hr', he'⟩ := hr.exists_inspect he
  exact ⟨e', entryAt_eq_ok.2 ⟨l', locate_eq_ok.2 ⟨ha, hr'⟩, he'⟩⟩

/-- **The root is passed over**: a directory, and no link to one, with the excluded name. -/
def PassedOver (t : Tree) (cwd : Location) (c : Config) (root : Path) : Prop :=
  t.inspect cwd root = .ok .dir ∧ root.rootName = c.excludedName

theorem survey_of_passedOver (habs : root.isAbsolute) (hx : t.PassedOver cwd c root) :
    t.survey cwd c root = { findings := [.excluded root] } := by
  simp [survey, habs, hx.1, hx.2]

/-- The walk goes through the directory that the root leads to. -/
theorem survey_of_leads_dir (habs : root.isAbsolute) (hr : t.locate cwd .use root = .ok l)
    (hl : t.get? l = some .dir) (hx : ¬ t.PassedOver cwd c root) :
    t.survey cwd c root = t.walkBelow cwd c root l := by
  have hs : t.status cwd root = .ok .dir := entryAt_eq_ok.2 ⟨l, hr, hl⟩
  obtain ⟨e, hi⟩ := exists_inspect hs
  obtain ⟨l', hl', he⟩ := entryAt_eq_ok.1 hi
  cases e with
  | link q => simp [survey, habs, hi, hs, hr]
  | file b =>
    have hsame := Except.ok.inj ((locate_use hl' (by simp [he])).symm.trans hr)
    simp [← hsame, he] at hl
  | dir =>
    have hsame := Except.ok.inj ((locate_use hl' (by simp [he])).symm.trans hr)
    have hname : root.rootName ≠ c.excludedName := fun hname => hx ⟨hi, hname⟩
    simp [survey, habs, hi, hl', hsame, hname]

/-- The walk finds the file that the root leads to, or nothing. -/
theorem survey_of_leads_file {b : Bytes} (habs : root.isAbsolute)
    (hs : t.status cwd root = .ok (.file b)) :
    t.survey cwd c root =
      { findings := if c.isSourceName root.rootName then [.source root] else [] } := by
  obtain ⟨e, hi⟩ := exists_inspect hs
  cases e with
  | link q => simp [survey, habs, hi, hs]
  | file b' => simp [survey, habs, hi]
  | dir =>
    obtain ⟨l, hl, he⟩ := entryAt_eq_ok.1 hi
    have hs' : t.status cwd root = .ok .dir :=
      entryAt_eq_ok.2 ⟨l, locate_use hl (by simp [he]), he⟩
    simp [hs'] at hs

/-- What a root leads to is no link. -/
theorem status_ne_link (habs : root.isAbsolute) (q : Path) : t.status cwd root ≠ .ok (.link q) := by
  intro hs
  obtain ⟨l, hr, hl⟩ := entryAt_eq_ok.1 hs
  have hres := resolves_of_locate hr
  rw [start_of_isAbsolute habs] at hres
  exact hres.ne_link (get?_nil t) q hl

/-- **The walk is complete** where the root leads somewhere, and is passed over or has directories
that can be opened. -/
theorem obstacle_survey {e : Entry} (habs : root.isAbsolute) (hs : t.status cwd root = .ok e)
    (ho : t.PassedOver cwd c root ∨ t.Openable cwd c root) :
    (t.survey cwd c root).obstacle = none := by
  cases e with
  | link q => exact absurd hs (status_ne_link habs q)
  | file b => rw [survey_of_leads_file habs hs]
  | dir =>
    by_cases hx : t.PassedOver cwd c root
    · rw [survey_of_passedOver habs hx]
    · obtain ⟨l, hr, hl⟩ := entryAt_eq_ok.1 hs
      rw [survey_of_leads_dir habs hr hl hx]
      exact obstacle_walkBelow habs hr hl (ho.resolve_left hx)

end Tree

end SourceCoding
