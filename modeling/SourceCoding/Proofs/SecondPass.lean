import SourceCoding.Proofs.Linkless

/-!
# A second pass

A pass that may change sources and fails on none leaves nothing to do: a further pass finds the same
sources, all of them in order, and changes nothing.

Two sources may get in each other's way, since one may be named like the backup of the other. Then
patching the one removes the other, which is gone when its turn comes. Its turn succeeds only if it
has a backup itself, and this is again named like a source, the backup of which must be there as
well, and so on. Names have a greatest length, so the last source of such a chain makes the pass
fail. Where none fails each source has its desk for itself.

## Main definitions

* `Doomed`: what comes of the last source of a chain
* `Settled`: some sources are in order, and all other places are as before

## Main results

* `no_chain`: where no source fails, no source is the backup of another one
* `pass_settles`: where no source fails, all are in order after the pass
* `second_pass`: a further pass changes nothing and finds all sources in order
-/

namespace SourceCoding

/-! ## Names that end alike -/

/-- What ends in `e` before and after `s` is appended goes on to do so. -/
theorem suffix_append_twice {e n s : Bytes} (h : e <:+ n) (h' : e <:+ n ++ s) :
    e <:+ n ++ s ++ s := by
  have hself := ending_of_append h h'
  obtain ⟨x, hx⟩ := h'
  refine hself.trans ⟨x, ?_⟩
  rw [← List.append_assoc, hx]

theorem Config.isSourceName_twice {c : Config} {n s : Bytes} (h : c.isSourceName n)
    (h' : c.isSourceName (n ++ s)) : c.isSourceName (n ++ s ++ s) := by
  rw [Config.isSourceName, List.isSuffixOf_iff_suffix] at *
  exact suffix_append_twice h h'

/-- A name comes before the longer names that begin with it. -/
theorem location_lt_append {d : Location} {n s : Bytes} (hs : s ≠ []) :
    d ++ [n] < d ++ [n ++ s] := by
  refine List.append_left_lt (List.cons_lt_cons_iff.2 (.inl ?_))
  obtain ⟨b, rest, rfl⟩ := List.exists_cons_of_ne_nil hs
  have : n ++ [] < n ++ b :: rest := List.append_left_lt (List.nil_lt_cons b rest)
  simpa using this

section

variable {c : Config} {p : Pass} {root f g : Path} {summary S S' : Summary} {s s' s₁ s₂ : Session}
  {d : Location} {n : Bytes} {t : Tree} {cwd : Location}

/-! ## One source more -/

/-- **A step on one source** changes nothing but its desk, and where it puts no failure on record,
it leaves the content that counted, fixed, and no backup. -/
theorem Steady.step (h : Steady t cwd s₁) (hc : c.Valid) (hp : p.Follows c) (hm : p.mode = .apply)
    (he : t.Enters cwd f d n) (hr : (p.step S f).runIn s₁ = (.ok S', s₂)) :
    Steady t cwd s₂ ∧ S'.filesScanned = S.filesScanned ∧
      (∀ m, m ≠ d ++ [n] → m ≠ d ++ [n ++ c.suffix] → s₂.tree.get? m = s₁.tree.get? m) ∧
      (S'.failures = [] → S.failures = [] ∧ p.patcher.store.Usable f n ∧
        ∃ content, (s₁.tree.deskAt c.suffix d n).counted = some content ∧
          s₂.tree.deskAt c.suffix d n = ⟨some (.file (c.fixed content)), none⟩) := by
  obtain ⟨hs, hother, -⟩ := h.patch (hp.proper hc) he
  rw [hp.suffix] at hother
  rcases Pass.step_eq_ok hr with ⟨o, s₃, hpatch, rfl, rfl⟩ | ⟨e, s₃, hpatch, rfl, rfl⟩ <;>
    rw [hpatch] at hs hother
  · refine ⟨hs.tell _, Summary.filesScanned_record S o, hother, fun hf => ?_⟩
    rw [Summary.failures_record] at hf
    obtain ⟨hu, -, content, hcount, hdesk⟩ := h.patch_eq_ok (hp.proper hc) hm he hpatch
    rw [hp.suffix] at hcount hdesk
    refine ⟨hf, hu, content, hcount, hdesk.trans ?_⟩
    rw [Patcher.fixed, Config.fixed, hp.declaration]
  · exact ⟨hs.tell _, rfl, hother, fun hf => by simp [Summary.recordFailure] at hf⟩

/-! ## Chains of backups -/

/-- What comes before a source in the order of locations has been treated before it. -/
theorem mem_done_of_lt {done rest : List Path} {d' : Location} {n' : Bytes}
    (hfiles : (t.survey cwd c root).sources = done ++ g :: rest)
    (hf : f ∈ (t.survey cwd c root).sources) (hfn : t.Enters cwd f d n)
    (hgn : t.Enters cwd g d' n') (hlt : d ++ [n] < d' ++ [n']) : f ∈ done := by
  have hsorted := t.sorted_sources cwd c root
  rw [hfiles, List.pairwise_append, List.pairwise_cons] at hsorted
  rw [hfiles] at hf
  rcases List.mem_append.1 hf with hf | hf
  · exact hf
  rcases List.mem_cons.1 hf with rfl | hf
  · obtain ⟨rfl, rfl⟩ := Tree.enters_unique hfn hgn
    exact absurd hlt (List.lt_irrefl _)
  · exact absurd (List.lt_trans hlt (hsorted.2.1.1 f hf _ _ _ _ hgn hfn)) (List.lt_irrefl _)

/-- **What comes of the last source of a chain** while no source fails: `g` is the backup of `f`,
and its own backup is no file. Once `f` has been treated `g` is gone, so its turn does not come. -/
structure Doomed (c : Config) (f g : Path) (d : Location) (n : Bytes) (done : List Path)
    (t : Tree) : Prop where
  /-- The backup of `g` is no file. -/
  backup : ∀ b, t.get? (d ++ [n ++ c.suffix ++ c.suffix]) ≠ some (.file b)
  /-- After `f` there is no `g`. -/
  source : f ∈ done → t.get? (d ++ [n ++ c.suffix]) = none
  /-- The turn of `g` has not come. -/
  untreated : g ∉ done

/-- Another source than `g` leaves `g` without a backup, and `f` removes it. -/
theorem Doomed.step_other {x : Path} {done : List Path} {d' : Location} {n' b : Bytes}
    {t' t'' : Tree} (h : Doomed c f g d n done t') (hf : f ∈ (t.survey cwd c root).sources)
    (hg : g ∈ (t.survey cwd c root).sources) (hx : x ∈ (t.survey cwd c root).sources)
    (hfn : t.Enters cwd f d n) (hgn : t.Enters cwd g d (n ++ c.suffix)) (hxn : t.Enters cwd x d' n')
    (hlast : ¬ t.Enters cwd x d (n ++ c.suffix ++ c.suffix)) (hxg : x ≠ g)
    (hother : ∀ m, m ≠ d' ++ [n'] → m ≠ d' ++ [n' ++ c.suffix] → t''.get? m = t'.get? m)
    (hdesk : t''.deskAt c.suffix d' n' = ⟨some (.file b), none⟩) :
    Doomed c f g d n (done ++ [x]) t'' := by
  have hne : ¬ (d = d' ∧ n ++ c.suffix = n') := by
    rintro ⟨rfl, rfl⟩
    exact hxg (Tree.eq_of_enters hx hg hxn hgn)
  refine ⟨?_, fun hfx => ?_, ?_⟩
  · rw [hother]
    · exact h.backup
    · intro he
      obtain ⟨rfl, rfl⟩ := Tree.location_inj he
      exact hlast hxn
    · intro he
      exact hne ⟨(Tree.location_inj he).1, List.append_cancel_right (Tree.location_inj he).2⟩
  · by_cases hxf : x = f
    · subst hxf
      obtain ⟨rfl, rfl⟩ := Tree.enters_unique hxn hfn
      exact congrArg Desk.backup hdesk
    · rw [hother]
      · exact h.source ((List.mem_append.1 hfx).resolve_right (by simpa using Ne.symm hxf))
      · exact fun he => hne (Tree.location_inj he)
      · intro he
        obtain ⟨rfl, hn⟩ := Tree.location_inj he
        obtain rfl := List.append_cancel_right hn
        exact hxf (Tree.eq_of_enters hx hf hxn hfn)
  · simp [h.untreated, Ne.symm hxg]

/-- **The last source of a chain** makes the pass fail: it is the backup of another source, its own
backup is no file, and the name of this backup is no source's. -/
theorem no_last_link (hc : c.Valid) (ht : s.tree.LinkFree) (hp : p.Follows c) (hm : p.mode = .apply)
    (hr : (p.run root).runIn s = (.ok summary, s')) (hfail : summary.failures = [])
    (hf : f ∈ (s.tree.survey s.cwd c root).sources)
    (hg : g ∈ (s.tree.survey s.cwd c root).sources) (hfn : s.tree.Enters s.cwd f d n)
    (hgn : s.tree.Enters s.cwd g d (n ++ c.suffix))
    (hnone : ∀ b, s.tree.get? (d ++ [n ++ c.suffix ++ c.suffix]) ≠ some (.file b))
    (hlast : ∀ x ∈ (s.tree.survey s.cwd c root).sources,
      ¬ s.tree.Enters s.cwd x d (n ++ c.suffix ++ c.suffix)) : False := by
  have hrun := Pass.run_ok
    (I := fun done S s₁ => Steady s.tree s.cwd s₁ ∧
      (S.failures = [] → Doomed c f g d n done s₁.tree))
    (fun done S s₁ es hI => ⟨hI.1.tell es, hI.2⟩) ?_ hr
    ⟨.refl ht, fun _ => ⟨hnone, by simp, by simp⟩⟩
  · rw [hp.survey] at hrun
    exact (hrun.2.2 hfail).untreated hg
  · rintro done x rest S s₁ S' s₂ hfiles ⟨hs, hI⟩ hstep
    rw [hp.survey] at hfiles
    have hx : x ∈ (s.tree.survey s.cwd c root).sources := by simp [hfiles]
    obtain ⟨d', n', hat⟩ := Tree.exists_sourceAt hx
    obtain ⟨hs', -, hother, hleft⟩ := hs.step hc hp hm hat.enters hstep
    refine ⟨hs', fun hfail => ?_⟩
    obtain ⟨hS, -, content, hcount, hdesk⟩ := hleft hfail
    by_cases hxg : x = g
    · -- Neither `g` nor its backup is there, so no content counts.
      subst hxg
      obtain ⟨rfl, rfl⟩ := Tree.enters_unique hat.enters hgn
      have hfdone := mem_done_of_lt hfiles hf hfn hgn (location_lt_append hc.suffix_ne_nil)
      rcases Desk.mem_of_counted hcount with hfile | hfile
      · exact absurd (((hI hS).source hfdone).symm.trans hfile) (by simp)
      · exact absurd hfile ((hI hS).backup content)
    · exact (hI hS).step_other hf hg hx hfn hgn hat.enters (hlast x hx) hxg hother hdesk

/-- A pass that is not broken off has had a complete walk. -/
theorem Pass.Follows.obstacle_of_run (hp : p.Follows c)
    (hr : (p.run root).runIn s = (.ok summary, s')) :
    (s.tree.survey s.cwd c root).obstacle = none := by
  have := (Pass.run_ok (I := fun _ _ _ => True) (by simp) (by simp) hr trivial).1
  rwa [hp.survey] at this

/-- What is named like the backup of a backup is found as a source, where the walk is complete. -/
theorem exists_next_link {b : Bytes} (ho : (s.tree.survey s.cwd c root).obstacle = none)
    (hsuffix : c.suffix ≠ []) (hf : f ∈ (s.tree.survey s.cwd c root).sources)
    (hg : g ∈ (s.tree.survey s.cwd c root).sources) (hfn : s.tree.Enters s.cwd f d n)
    (hgn : s.tree.Enters s.cwd g d (n ++ c.suffix))
    (hb : s.tree.get? (d ++ [n ++ c.suffix ++ c.suffix]) = some (.file b)) :
    ∃ x ∈ (s.tree.survey s.cwd c root).sources,
      s.tree.Enters s.cwd x d (n ++ c.suffix ++ c.suffix) := by
  -- Both have the extension, and so has what is named with the suffix twice.
  have hnamed : ∀ {x m}, x ∈ (s.tree.survey s.cwd c root).sources → s.tree.Enters s.cwd x d m →
      c.isSourceName m := by
    intro x m hx hxm
    obtain ⟨d', n', hat⟩ := Tree.exists_sourceAt hx
    obtain ⟨-, rfl⟩ := Tree.enters_unique hat.enters hxm
    exact hat.named
  have hname := Config.isSourceName_twice (hnamed hf hfn) (hnamed hg hgn)
  rcases Tree.survey_cases s.tree s.cwd c root with hs | ⟨habs, l, hl, ⟨-, -, hs⟩ | ⟨hd, hs⟩⟩
  · simp [hs] at hf
  · obtain rfl : f = root := by simpa [hs, Walk.sources, Finding.source?] using hf
    obtain rfl : g = f := by simpa [hs, Walk.sources, Finding.source?] using hg
    have := (Tree.enters_unique hfn hgn).2
    exact absurd (List.append_right_eq_self.1 this.symm) hsuffix
  · rw [hs] at ho hg ⊢
    exact Tree.exists_beside habs hl hd ho hg hgn hname hb

/-- **Where no source fails, no source is the backup of another one.** -/
theorem no_chain (hc : c.Valid) (ht : s.tree.LinkFree) (hp : p.Follows c) (hm : p.mode = .apply)
    (hr : (p.run root).runIn s = (.ok summary, s')) (hfail : summary.failures = [])
    (hf : f ∈ (s.tree.survey s.cwd c root).sources)
    (hg : g ∈ (s.tree.survey s.cwd c root).sources) (hfn : s.tree.Enters s.cwd f d n) :
    ¬ s.tree.Enters s.cwd g d (n ++ c.suffix) := by
  intro hgn
  have ho := hp.obstacle_of_run hr
  -- The names along a chain grow, and none is longer than `nameLimit`.
  induction hk : nameLimit - n.length using Nat.strongRecOn generalizing f g n with
  | ind k ih =>
    subst hk
    have hlen : (n ++ c.suffix).length ≤ nameLimit := by
      obtain ⟨d', n', hat⟩ := Tree.exists_sourceAt hg
      obtain ⟨-, rfl⟩ := Tree.enters_unique hat.enters hgn
      exact length_le_of_isName hat.isName
    have hlt : nameLimit - (n ++ c.suffix).length < nameLimit - n.length := by
      have := List.length_pos_of_ne_nil hc.suffix_ne_nil
      rw [List.length_append] at hlen ⊢
      omega
    have hlast : ∀ x ∈ (s.tree.survey s.cwd c root).sources,
        ¬ s.tree.Enters s.cwd x d (n ++ c.suffix ++ c.suffix) := fun x hx hxn =>
      ih _ hlt hg hx hgn hxn rfl
    refine no_last_link hc ht hp hm hr hfail hf hg hfn hgn (fun b hb => ?_) hlast
    obtain ⟨x, hx, hxn⟩ := exists_next_link ho hc.suffix_ne_nil hf hg hfn hgn hb
    exact hlast x hx hxn

/-! ## What a pass without failures leaves -/

/-- **Some sources are in order**, and all other places hold what they held before. -/
structure Settled (c : Config) (done : List Path) (t t' : Tree) (cwd : Location) : Prop where
  /-- Elsewhere nothing has changed. -/
  other : ∀ m, (∀ f ∈ done, ∀ d n, t.Enters cwd f d n → m ≠ d ++ [n] ∧ m ≠ d ++ [n ++ c.suffix]) →
    t'.get? m = t.get? m
  /-- The sources hold compliant contents and have no backups. -/
  desks : ∀ f ∈ done, ∀ d n, t.Enters cwd f d n →
    (BackupStore.ofConfig c).Usable f n ∧
      ∃ b, isCompliant b ∧ t'.deskAt c.suffix d n = ⟨some (.file b), none⟩

/-- **Where no source fails, all are in order after the pass.** -/
theorem pass_settles (hc : c.Valid) (ht : s.tree.LinkFree) (hp : p.Follows c) (hm : p.mode = .apply)
    (hr : (p.run root).runIn s = (.ok summary, s')) (hfail : summary.failures = []) :
    Steady s.tree s.cwd s' ∧ summary.filesScanned = (s.tree.survey s.cwd c root).sources.length ∧
      Settled c (s.tree.survey s.cwd c root).sources s.tree s'.tree s.cwd := by
  have hrun := Pass.run_ok
    (I := fun done S s₁ => Steady s.tree s.cwd s₁ ∧
      S.filesScanned = (s.tree.survey s.cwd c root).sources.length ∧
      (S.failures = [] → Settled c done s.tree s₁.tree s.cwd))
    (fun done S s₁ es hI => ⟨hI.1.tell es, hI.2⟩) ?_ hr
    ⟨.refl ht, by rw [hp.survey]; rfl, fun _ => ⟨fun _ _ => rfl, by simp⟩⟩
  · rw [hp.survey] at hrun
    exact ⟨hrun.2.1, hrun.2.2.1, hrun.2.2.2 hfail⟩
  · rintro done f rest S s₁ S' s₂ hfiles ⟨hs, hcount, hI⟩ hstep
    rw [hp.survey] at hfiles
    have hmem : ∀ g ∈ done ++ [f], g ∈ (s.tree.survey s.cwd c root).sources := by
      intro g hg
      rw [hfiles]
      rcases List.mem_append.1 hg with hg | hg <;> simp_all
    obtain ⟨d, n, hat⟩ := Tree.exists_sourceAt (hmem f (by simp))
    obtain ⟨hs', hcount', hother, hleft⟩ := hs.step hc hp hm hat.enters hstep
    refine ⟨hs', hcount'.trans hcount, fun hfail' => ?_⟩
    obtain ⟨hS, hu, content, -, hdesk⟩ := hleft hfail'
    have hI := hI hS
    refine ⟨fun m hmf => ?_, fun g hg d' n' hgn => ?_⟩
    · obtain ⟨hl, hk⟩ := hmf f (by simp) d n hat.enters
      rw [hother m hl hk]
      exact hI.other m fun g hg => hmf g (List.mem_append_left _ hg)
    · by_cases hgf : g = f
      · subst hgf
        obtain ⟨rfl, rfl⟩ := Tree.enters_unique hat.enters hgn
        exact ⟨hp.usable_iff.1 hu, _, hc.isCompliant_fixed content, hdesk⟩
      · have hdone : g ∈ done := (List.mem_append.1 hg).resolve_right (by simpa using hgf)
        obtain ⟨hu', b, hb, hd⟩ := hI.desks g hdone d' n' hgn
        refine ⟨hu', b, hb, (Tree.deskAt_of_other hother ?_ ?_ ?_).trans hd⟩
        · rintro ⟨rfl, rfl⟩
          exact hgf (Tree.eq_of_enters (hmem g hg) (hmem f (by simp)) hgn hat.enters)
        · rintro ⟨rfl, rfl⟩
          exact no_chain hc ht hp hm hr hfail (hmem f (by simp)) (hmem g hg) hat.enters hgn
        · rintro ⟨rfl, rfl⟩
          exact no_chain hc ht hp hm hr hfail (hmem g hg) (hmem f (by simp)) hgn hat.enters

/-! ## The same sources again -/

namespace Settled

variable {t' : Tree} {done : List Path}

/-- A place is as before, or it is the place of a source or of its backup. -/
theorem place_cases (h : Settled c done t t' cwd) (m : Location) :
    t'.get? m = t.get? m ∨ ∃ f ∈ done, ∃ d n, t.Enters cwd f d n ∧
      (m = d ++ [n] ∧ (∃ b, t'.get? m = some (.file b)) ∨
        m = d ++ [n ++ c.suffix] ∧ t'.get? m = none) := by
  by_cases hm : ∀ f ∈ done, ∀ d n, t.Enters cwd f d n → m ≠ d ++ [n] ∧ m ≠ d ++ [n ++ c.suffix]
  · exact .inl (h.other m hm)
  push Not at hm
  obtain ⟨f, hf, d, n, hfn, hm⟩ := hm
  obtain ⟨-, b, -, hd⟩ := h.desks f hf d n hfn
  refine .inr ⟨f, hf, d, n, hfn, ?_⟩
  by_cases hl : m = d ++ [n]
  · exact .inl ⟨hl, b, hl ▸ congrArg Desk.source hd⟩
  · exact .inr ⟨hm hl, hm hl ▸ congrArg Desk.backup hd⟩

/-- **What is in order is found again**, and nothing else. -/
theorem survey_eq (h : Settled c (t.survey cwd c root).sources t t' cwd)
    (ht : t.LinkFree) (ht' : t'.LinkFree) (he : t'.Extends t)
    (ho : (t.survey cwd c root).obstacle = none)
    (hchain : ∀ f ∈ (t.survey cwd c root).sources, ∀ g ∈ (t.survey cwd c root).sources, ∀ d n,
      t.Enters cwd f d n → ¬ t.Enters cwd g d (n ++ c.suffix)) :
    t'.survey cwd c root = t.survey cwd c root := by
  rcases t.survey_cases cwd c root with hs | ⟨habs, l, hl, ⟨⟨b, hb⟩, -, hs⟩ | ⟨hd, hs⟩⟩
  · have : t' = t := Tree.ext_get? fun m => h.other m (by simp [hs])
    rw [this]
  · have hroot : root ∈ (t.survey cwd c root).sources := by
      simp [hs, Walk.sources, Finding.source?]
    obtain ⟨d, n, hat⟩ := Tree.exists_sourceAt hroot
    obtain ⟨-, b', -, hdesk⟩ := h.desks root hroot d n hat.enters
    have hfollow := hat.enters.follow_name (length_le_of_isName hat.isName) (ht _) .use
    obtain rfl := Except.ok.inj ((Tree.resolves_of_locate hl).follow.symm.trans hfollow)
    exact Tree.survey_congr_of_file ht ht' he habs hl hb (congrArg Desk.source hdesk)
  · refine Tree.survey_congr ht ht' ⟨fun m => ⟨he.dir, fun hm => ?_⟩, fun m n' hn' => ?_⟩ habs hl hd
    · rcases h.place_cases m with heq | ⟨f, -, d, n, -, ⟨-, b, hfile⟩ | ⟨-, hnone⟩⟩
      · exact heq ▸ hm
      · simp [hm] at hfile
      · simp [hm] at hnone
    · rcases h.place_cases (m ++ [n']) with heq | ⟨f, hf, d, n, hfn, ⟨hm, hfile⟩ | ⟨hm, hnone⟩⟩
      · rw [heq]
      · obtain ⟨d', n'', b, hat, hb⟩ := Tree.exists_desk ht hf
        obtain ⟨rfl, rfl⟩ := Tree.enters_unique hat.enters hfn
        exact iff_of_true ⟨b, hm ▸ hb⟩ hfile
      · -- A backup that is named like a source would have been found as one.
        refine iff_of_false ?_ (by simp [hnone])
        rintro ⟨b, hb⟩
        obtain ⟨rfl, rfl⟩ := Tree.location_inj hm
        obtain ⟨g, hg, hgn⟩ := Tree.exists_beside habs hl hd (hs ▸ ho) (hs ▸ hf) hfn hn' hb
        exact hchain f hf g (hs ▸ hg) _ _ hfn hgn

end Settled

/-- **A step on a source that is in order** puts it on record and changes nothing. -/
theorem step_of_settled {b : Bytes} (hc : c.Valid) (hp : p.Follows c) (hf : p.faults = [])
    (ht : s₁.tree.LinkFree) (he : s₁.tree.Enters s₁.cwd f d n)
    (hu : (BackupStore.ofConfig c).Usable f n) (hb : isCompliant b)
    (hd : s₁.tree.deskAt c.suffix d n = ⟨some (.file b), none⟩) :
    ∃ s₂, (p.step S f).runIn s₁ = (.ok { S with alreadyCompliant := S.alreadyCompliant + 1 }, s₂) ∧
      s₂.tree = s₁.tree ∧ s₂.cwd = s₁.cwd := by
  rcases patch_cases (hp.proper hc) ht he with ⟨hn, -⟩ | ⟨-, t', hr, hs⟩
  · exact absurd (hp.usable_iff.2 hu) hn
  · obtain ⟨hdesk, hresult⟩ := turn_of_settled p.patcher f hb
    rw [hp.suffix, hd] at hr hs
    rw [hresult (Pass.strikes_of_no_faults hf _ _)] at hr
    rw [hdesk] at hs
    refine ⟨_, Pass.step_of_ok hr, Tree.ext_get? fun m => ?_, rfl⟩
    by_cases hl : m = d ++ [n]
    · exact hl ▸ hs.holds.1.trans (congrArg Desk.source hd).symm
    by_cases hk : m = d ++ [n ++ c.suffix]
    · exact hk ▸ hs.holds.2.trans (congrArg Desk.backup hd).symm
    · exact hs.other m hl hk

/-- **A second pass** finds the sources of the first one, all of them in order, and changes nothing,
if the first one may change sources and fails on none. The first pass may meet faults; the second
one meets none, and it may only inspect sources or change them. -/
theorem second_pass (hc : c.Valid) (ht : s.tree.LinkFree) (hp : p.Follows c) (hm : p.mode = .apply)
    (hr : (p.run root).runIn s = (.ok summary, s')) (hfail : summary.failures = []) {q : Pass}
    (hq : q.Follows c) (hqf : q.faults = []) :
    ∃ summary' s'', (q.run root).runIn s' = (.ok summary', s'') ∧ s''.tree = s'.tree ∧
      summary'.filesScanned = summary.filesScanned ∧
      summary'.alreadyCompliant = summary'.filesScanned ∧ summary'.patched = [] ∧
      summary'.nonCompliant = [] ∧ summary'.recovered = [] ∧ summary'.pendingBackups = [] ∧
      summary'.failures = [] := by
  obtain ⟨hs', hcount, hset⟩ := pass_settles hc ht hp hm hr hfail
  have ho := hp.obstacle_of_run hr
  have hsurvey : s'.tree.survey s'.cwd q.config root = s.tree.survey s.cwd c root := by
    rw [hq.survey, hs'.cwd_eq]
    exact hset.survey_eq ht hs'.linkFree hs'.dirs ho
      fun f hf g hg d n hfn => no_chain hc ht hp hm hr hfail hf hg hfn
  have hrun := Pass.run_total (p := q) (s := s')
    (I := fun done S s₁ => s₁.tree = s'.tree ∧ s₁.cwd = s'.cwd ∧
      S = { q.blank root (s.tree.survey s.cwd c root).sources with
        alreadyCompliant := done.length })
    (fun done S s₁ es hI => hI) ?_ (hsurvey ▸ ho) ⟨rfl, rfl, by rw [hsurvey]; rfl⟩
  · obtain ⟨S, s'', hrun, htree, -, rfl⟩ := hrun
    refine ⟨_, s'', hrun, htree, hcount.symm, ?_, rfl, rfl, rfl, rfl, rfl⟩
    rw [hsurvey]
    rfl
  · rintro done f rest S s₁ hfiles ⟨htree, hcwd, rfl⟩
    rw [hsurvey] at hfiles
    have hf : f ∈ (s.tree.survey s.cwd c root).sources := by simp [hfiles]
    obtain ⟨d, n, hat⟩ := Tree.exists_sourceAt hf
    obtain ⟨hu, b, hb, hd⟩ := hset.desks f hf d n hat.enters
    have he : s₁.tree.Enters s₁.cwd f d n := by
      rw [htree, hcwd]
      exact hs'.enters hat.enters
    obtain ⟨s₂, hstep, htree₂, hcwd₂⟩ := step_of_settled hc hq hqf (htree ▸ hs'.linkFree) he hu hb
      (htree ▸ hd)
    exact ⟨_, s₂, hstep, htree₂.trans htree, hcwd₂.trans hcwd, by simp⟩

/-- Of two sources one has a leftover backup. It is restored, both are patched, and a pass that only
inspects them finds both in order. -/
theorem second_pass_of_leftover :
    let t := ((Tree.lone (Bytes.ofString "a.py") (Bytes.ofString "x")).put
      [Bytes.ofString "a.py.checker"] (.file (Bytes.ofString "x = 1"))).put
      [Bytes.ofString "b.py"] (.file (Bytes.ofString "y = 2"))
    ∃ summary s', (Pass.run ⟨{}, .apply, []⟩ (Path.ofString "/")).runIn ⟨t, [], []⟩ =
        (.ok summary, s') ∧
      summary.patched = [Path.ofString "/a.py", Path.ofString "/b.py"] ∧
      summary.recovered = [Path.ofString "/a.py"] ∧ summary.failures = [] ∧
      ∃ summary' s'', (Pass.run ⟨{}, .check, []⟩ (Path.ofString "/")).runIn s' =
          (.ok summary', s'') ∧ s''.tree = s'.tree ∧
        summary'.filesScanned = summary.filesScanned ∧
        summary'.alreadyCompliant = summary'.filesScanned ∧ summary'.recovered = [] ∧
        summary'.failures = [] := by
  intro t
  have ht : t.LinkFree := ((Tree.linkFree_lone _ _).put (by simp)).put (by simp)
  have hlists : ((Pass.run ⟨{}, .apply, []⟩ (Path.ofString "/")).runIn ⟨t, [], []⟩).1.toOption.map
      (fun S => (S.patched, S.recovered, S.failures)) =
      some ([Path.ofString "/a.py", Path.ofString "/b.py"], [Path.ofString "/a.py"], []) := by
    decide +kernel
  obtain ⟨summary, s', hr, hpaths⟩ := Act.exists_runIn_of_map hlists
  simp only [Prod.mk.injEq] at hpaths
  obtain ⟨hpatched, hrecovered, hfail⟩ := hpaths
  obtain ⟨summary', s'', hrun, htree, hcount, hcompliant, -, -, hrecovered', -, hfail'⟩ :=
    second_pass (c := {}) (q := ⟨{}, .check, []⟩) Config.valid_default ht ⟨false, rfl⟩ rfl hr hfail
      ⟨false, rfl⟩ rfl
  exact ⟨summary, s', hr, hpatched, hrecovered, hfail, summary', s'', hrun, htree, hcount,
    hcompliant, hrecovered', hfail'⟩

end

end SourceCoding
