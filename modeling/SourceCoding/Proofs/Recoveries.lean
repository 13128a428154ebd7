import SourceCoding.Proofs.Account
import SourceCoding.Proofs.Exclusion

/-!
# Recoveries told and recoveries reported

A pass that may change sources announces a recovery at the moment at which a source has been written
back from its backup and the backup is gone. Its summary learns of the recovery when the treatment
of the source has come to its end. What is announced is what has been done, whatever comes of the
source later. But a source that is restored and fails after that, when its declaration is to be
inserted, is put on record as a failure only: it is announced and not reported.

## Main definitions

* `Patcher.Restores`: a source is written back from its backup, and the backup is removed
* `Event.Silent`: an event announces no recovery
* `Summary.Reports`: what a summary reports of the recoveries that were announced
* `Pass.Announces`: what the events of a pass say about recoveries

## Main results

* `Tree.exists_remove_of_write`: a backup that could be read can be removed
* `Patcher.patch_recovers`: a recovery is announced just if the source is restored
* `Summary.Reports.extend`, `Pass.Announces.extend`: one source more
* `Pass.Announces.step`: a step of a pass keeps the two together
* `recoveries_reported`: what is reported is what was announced, without the sources that failed
-/

namespace SourceCoding

/-- **A backup that could be read can be removed** when a source has been written. -/
theorem Tree.exists_remove_of_write {t t' : Tree} {cwd : Location} {p q : Path}
    {saved content : Bytes} (hp : p.isAbsolute) (hq : q.isAbsolute)
    (hread : t.read cwd q = .ok saved) (hwrite : t.write cwd p content = .ok t') :
    ∃ t'', t'.remove cwd q = .ok t'' := by
  obtain ⟨l, hl, hdir⟩ := stops_of_read hread
  rw [read_of_locate hl] at hread
  have hfile := contentOf_eq_ok hread
  obtain ⟨front, d, n, hsteps, hfront, hd, e, he, hel⟩ :=
    (resolves_of_locate hl).exists_last (t.get?_start_of_isAbsolute cwd hq) hfile
  have henters : t.Enters cwd q d n := ⟨hd, front, hsteps, hfront⟩
  have hne : e ≠ .dir := by
    rintro rfl
    obtain rfl := hel (by simp)
    exact hdir he
  have hstands : ∃ e', e' ≠ .dir ∧ t'.get? (d ++ [n]) = some e' := by
    obtain ⟨w, -, -, rfl⟩ := write_eq_ok hwrite
    rcases t.get?_put_cases w (.file content) (d ++ [n]) with hg | ⟨-, hg⟩
    · exact ⟨e, hne, hg.trans he⟩
    · exact ⟨_, by simp, hg⟩
  obtain ⟨e', hne', he'⟩ := hstands
  rw [(henters.mono (extends_of_write hp hwrite).1).remove_eq (henters.exists_locate hl).1
    (henters.length_le hl), he']
  cases e' with
  | dir => exact absurd rfl hne'
  | file c => exact ⟨_, rfl⟩
  | link q => exact ⟨_, rfl⟩

/-! ## Patching one source -/

/-- **A source is restored**: the backup is there, the source is written with its content, and the
backup is removed. -/
def Patcher.Restores (p : Patcher) (f : Path) (t : Tree) (cwd : Location) : Prop :=
  ∃ saved t₁ t₂, p.store.strikes .pending f = false ∧
    t.read cwd (p.store.backupPath f) = .ok saved ∧ t.write cwd f saved = .ok t₁ ∧
    p.store.strikes .discard f = false ∧ t₁.remove cwd (p.store.backupPath f) = .ok t₂

/-- An event announces no recovery. -/
def Event.Silent (e : Event) : Prop := e.recoveredPath? = none

theorem Event.StepOf.silent {b : BackupStore} {f : Path} {e : Event} (h : e.StepOf b f) :
    e.Silent := by
  cases e with
  | recovered path => exact h.elim
  | _ => rfl

theorem recoveredPaths_eq_nil {es : List Event} (h : ∀ e ∈ es, e.Silent) : recoveredPaths es = [] :=
  List.filterMap_eq_nil_iff.2 h

namespace Patcher

variable {p : Patcher} {f : Path}

/-- What is done about a content announces nothing, and says about the backup what was found. -/
theorem settle_answers (p : Patcher) (f : Path) (content : Bytes) (hadBackup : Bool) (s : Session) :
    ∃ told, s.Becomes told
        ((p.settle f content >>= fun action => pure (Outcome.mk f action hadBackup)).runIn s).2 ∧
      recoveredPaths told = [] ∧
      ∀ o, ((p.settle f content >>= fun action =>
        pure (Outcome.mk f action hadBackup)).runIn s).1 = .ok o →
          o.path = f ∧ o.hadBackup = hadBackup := by
  obtain ⟨told, hs, hsteps⟩ := ((p.tells_settle f content).bind fun action =>
    Act.tells_pure (Outcome.mk f action hadBackup)) s
  refine ⟨told, hs, recoveredPaths_eq_nil fun e he => (hsteps e he).silent, fun o ho => ?_⟩
  obtain ⟨action, s₁, -, ho⟩ := Act.bind_eq_ok ho
  cases ho
  exact ⟨rfl, rfl⟩

/-- **What is done about a backup** announces the recovery of the source, or it fails and the source
is not restored. -/
theorem reconcile_cases {s : Session} {saved : Bytes} (hm : p.mode = .apply) (habs : f.isAbsolute)
    (hasked : p.store.strikes .pending f = false)
    (hread : s.tree.read s.cwd (p.store.backupPath f) = .ok saved) :
    (p.Restores f s.tree s.cwd ∧ ∃ told s', (p.reconcile f (some saved)).runIn s = (.ok saved, s') ∧
        s.Becomes told s' ∧ recoveredPaths told = [f]) ∨
      (¬ p.Restores f s.tree s.cwd ∧ ∃ e told s',
        (p.reconcile f (some saved)).runIn s = (.error e, s') ∧ s.Becomes told s' ∧
          recoveredPaths told = []) := by
  have hrestores : p.Restores f s.tree s.cwd → ∃ t₁, s.tree.write s.cwd f saved = .ok t₁ ∧
      p.store.strikes .discard f = false := by
    rintro ⟨saved', t₁, t₂, -, hread', hw, hd, -⟩
    obtain rfl := Except.ok.inj (hread.symm.trans hread')
    exact ⟨t₁, hw, hd⟩
  cases hw : s.tree.write s.cwd f saved with
  | error e =>
    refine .inr ⟨fun h => ?_, .write f e, _, _, ?_,
      s.becomes_withTree (t := s.tree) [.backupFound f, .restoring f] rfl, rfl⟩
    · obtain ⟨t₁, hw', -⟩ := hrestores h
      simp [hw] at hw'
    · simp [reconcile, hm, restore, writeSource, Act.runIn_change, Tree.perform, hw]
  | ok t₁ =>
    cases hd : p.store.strikes .discard f with
    | true =>
      refine .inr ⟨fun h => ?_, .cleanup (p.store.backupPath f) (.other "device busy"), _, _, ?_,
        s.becomes_withTree (t := t₁) [.backupFound f, .restoring f, .changed (.write f saved),
          .storeCalled .discard f] (Tree.performAll_cons_eq_ok.2 ⟨t₁, hw, rfl⟩), rfl⟩
      · obtain ⟨-, -, hd'⟩ := hrestores h
        simp [hd] at hd'
      · simp [reconcile, hm, restore, writeSource, BackupStore.discard, Act.runIn_change,
          Tree.perform, hw, hd, Session.withTree_tell]
    | false =>
      obtain ⟨t₂, hr⟩ : ∃ t₂, t₁.remove s.cwd (p.store.backupPath f) = .ok t₂ :=
        Tree.exists_remove_of_write habs (Path.isAbsolute_append habs p.store.suffix) hread hw
      refine .inl ⟨⟨saved, t₁, t₂, hasked, hread, hw, hd, hr⟩, _, _, ?_,
        s.becomes_withTree (t := t₂) [.backupFound f, .restoring f, .changed (.write f saved),
          .storeCalled .discard f, .changed (.remove (p.store.backupPath f)), .recovered f]
        (Tree.performAll_cons_eq_ok.2 ⟨t₁, hw, Tree.performAll_cons_eq_ok.2 ⟨t₂, hr, rfl⟩⟩), rfl⟩
      simp [reconcile, hm, restore, writeSource, BackupStore.discard, Act.runIn_change,
        Tree.perform, hw, hd, hr, Session.withTree_tell]

/-- **A recovery is announced just if the source is restored**, and then the outcome says that there
was a backup, if there is an outcome. -/
theorem patch_recovers (hm : p.mode = .apply) (habs : f.isAbsolute) (s : Session) :
    ∃ told, s.Becomes (.storeCalled .pending f :: told) ((p.patch f).runIn s).2 ∧
      ((p.Restores f s.tree s.cwd ∧ recoveredPaths told = [f] ∧
          ∀ o, ((p.patch f).runIn s).1 = .ok o → o.path = f ∧ o.hadBackup = true) ∨
        (¬ p.Restores f s.tree s.cwd ∧ recoveredPaths told = [] ∧
          ∀ o, ((p.patch f).runIn s).1 = .ok o → o.path = f ∧ o.hadBackup = false)) := by
  have hasked : s.Becomes [.storeCalled .pending f] (s.tell [.storeCalled .pending f]) :=
    s.becomes_tell rfl
  cases hread : s.tree.read s.cwd (p.store.backupPath f) with
  | error e =>
    have hnot : ¬ p.Restores f s.tree s.cwd := by
      rintro ⟨saved, t₁, t₂, -, hread', -⟩
      simp [hread] at hread'
    by_cases he : e = .notFound
    · subst he
      rw [patch, Act.runIn_bind, runIn_pending, hread]
      cases p.store.strikes .pending f with
      | true => exact ⟨[], hasked, .inr ⟨hnot, rfl, by simp⟩⟩
      | false =>
        simp only [Bool.false_eq_true, if_false]
        rw [Act.runIn_bind, reconcile, runIn_readSource]
        cases (s.tell [.storeCalled .pending f]).tree.read
            (s.tell [.storeCalled .pending f]).cwd f with
        | error e => exact ⟨[], hasked, .inr ⟨hnot, rfl, by simp [Except.mapError]⟩⟩
        | ok content =>
          obtain ⟨told, htold, hnone, hanswer⟩ :=
            p.settle_answers f content false (s.tell [.storeCalled .pending f])
          exact ⟨told, hasked.trans htold, .inr ⟨hnot, hnone, hanswer⟩⟩
    · rw [runIn_patch_of_refused hread he]
      exact ⟨[], hasked, .inr ⟨hnot, rfl, by simp⟩⟩
  | ok saved =>
    rw [patch, Act.runIn_bind, runIn_pending, hread]
    cases hs : p.store.strikes .pending f with
    | true =>
      refine ⟨[], hasked, .inr ⟨?_, rfl, by simp⟩⟩
      rintro ⟨saved, t₁, t₂, hs', -⟩
      simp [hs] at hs'
    | false =>
      simp only [Bool.false_eq_true, if_false]
      rw [Act.runIn_bind]
      rcases reconcile_cases (s := s.tell [.storeCalled .pending f]) hm habs hs hread with
        ⟨hrestores, told, s₁, hr, htold, hpaths⟩ | ⟨hnot, e, told, s₁, hr, htold, hpaths⟩
      · obtain ⟨told', htold', hnone, hanswer⟩ := p.settle_answers f saved true s₁
        rw [hr]
        refine ⟨told ++ told', (hasked.trans htold).trans htold',
          .inl ⟨hrestores, ?_, hanswer⟩⟩
        rw [recoveredPaths_append, hnone, List.append_nil, hpaths]
      · rw [hr]
        exact ⟨told, hasked.trans htold, .inr ⟨hnot, hpaths, by simp⟩⟩

/-- What is announced of a source is its recovery just if it is restored, and the outcome says the
same. -/
theorem patch_announces (hm : p.mode = .apply) (habs : f.isAbsolute) (s : Session) :
    ∃ told, s.Becomes (.storeCalled .pending f :: told) ((p.patch f).runIn s).2 ∧
      (recoveredPaths told).Sublist [f] ∧
      (f ∈ recoveredPaths told ↔ p.Restores f s.tree s.cwd) ∧
      ∀ o, ((p.patch f).runIn s).1 = .ok o →
        (if o.hadBackup then [o.path] else []) = recoveredPaths told := by
  obtain ⟨told, hs, ⟨hrestores, hpaths, hanswer⟩ | ⟨hnot, hpaths, hanswer⟩⟩ :=
    patch_recovers hm habs s
  · refine ⟨told, hs, by simp [hpaths], by simp [hpaths, hrestores], fun o ho => ?_⟩
    obtain ⟨hpath, hhad⟩ := hanswer o ho
    simp [hpaths, hpath, hhad]
  · refine ⟨told, hs, by simp [hpaths], by simp [hpaths, hnot], fun o ho => ?_⟩
    simp [hpaths, (hanswer o ho).2]

end Patcher

/-! ## All sources -/

/-- The sources that could not be processed. -/
def Summary.failed (S : Summary) : List Path := S.failures.map SkippedSource.path

theorem Summary.recovered_record {S : Summary} {o : Outcome} (h : S.checkOnly = false) :
    (S.record o).recovered = S.recovered ++ if o.hadBackup then [o.path] else [] := by
  obtain ⟨path, action, hadBackup⟩ := o
  cases hadBackup <;> cases action <;> simp [record, recordBackup, recordAction, h]

/-- **What a summary reports** of the recoveries that were announced, as far as some sources have
been treated. -/
structure Summary.Reports (S : Summary) (done announced : List Path) : Prop where
  /-- Sources may be changed. -/
  checkOnly : S.checkOnly = false
  /-- Those that failed are among the sources. -/
  failed : S.failed ⊆ done
  /-- Those announced are on record, unless they failed. -/
  recovered : S.recovered = announced.filter (· ∉ S.failed)

/-- **One source more** in the summary, where its recovery may have been announced and it may have
failed. -/
theorem Summary.Reports.extend {S S' : Summary} {done announced own : List Path} {f : Path}
    (h : S.Reports done announced) (hsub : announced ⊆ done) (hf : f ∉ done) (hown : own ⊆ [f])
    (hcheck : S'.checkOnly = false)
    (hrecord : S'.failed = S.failed ∧ S'.recovered = S.recovered ++ own ∨
      S'.failed = S.failed ++ [f] ∧ S'.recovered = S.recovered) :
    S'.Reports (done ++ [f]) (announced ++ own) := by
  have hmem : ∀ g ∈ own, g = f := fun g hg => List.mem_singleton.1 (hown hg)
  rcases hrecord with ⟨hsame, hrecovered⟩ | ⟨hmore, hrecovered⟩
  · refine ⟨hcheck, ?_, ?_⟩
    · rw [hsame]
      exact List.Subset.trans h.failed (List.subset_append_left _ _)
    · have hkept : own.filter (· ∉ S.failed) = own := by
        rw [List.filter_eq_self]
        intro g hg
        obtain rfl := hmem g hg
        simpa using fun hfailed => hf (h.failed hfailed)
      rw [hrecovered, hsame, List.filter_append, hkept, h.recovered]
  · refine ⟨hcheck, ?_, ?_⟩
    · rw [hmore]
      exact List.append_subset.2 ⟨List.Subset.trans h.failed (List.subset_append_left _ _),
        List.subset_append_right _ _⟩
    · have hnone : own.filter (· ∉ S'.failed) = [] := by
        rw [List.filter_eq_nil_iff]
        intro g hg
        simp [hmore, hmem g hg]
      rw [List.filter_append, hnone, List.append_nil, hrecovered, h.recovered]
      refine List.filter_congr fun g hg => ?_
      have hne : g ≠ f := fun heq => hf (heq ▸ hsub hg)
      simp [hmore, hne]

/-- **What the events of a pass announce**, as far as some sources have been treated. -/
structure Pass.Announces (p : Pass) (s : Session) (done : List Path) (told : List Event) :
    Prop where
  /-- Recoveries are announced in the order of the sources. -/
  inOrder : (recoveredPaths told).Sublist done
  /-- The recovery of a source is announced just if the source is restored in the tree in which its
  treatment begins. -/
  restored : ∀ f ∈ done, ∃ before after t, told = before ++ .storeCalled .pending f :: after ∧
    s.tree.performAll s.cwd (operations before) = .ok t ∧
    (f ∈ recoveredPaths told ↔ p.patcher.Restores f t s.cwd)

namespace Pass

variable {p : Pass} {s s₁ s' : Session} {root f : Path} {done : List Path} {S S' : Summary}
  {told : List Event}

theorem recoveredPaths_concat {last : Event} (hlast : last.Silent) :
    recoveredPaths (told ++ [last]) = recoveredPaths told := by
  rw [recoveredPaths_append, recoveredPaths_eq_nil (List.forall_mem_singleton.2 hlast),
    List.append_nil]

theorem Announces.tell {last : Event} (h : p.Announces s done told) (hlast : last.Silent) :
    p.Announces s done (told ++ [last]) := by
  refine ⟨?_, fun f hf => ?_⟩ <;> rw [recoveredPaths_concat hlast]
  · exact h.inOrder
  · obtain ⟨before, after, t, rfl, ht, hiff⟩ := h.restored f hf
    exact ⟨before, after ++ [last], t, by simp, ht, hiff⟩

/-- **One source more** in the events, announced just if it is restored. -/
theorem Announces.extend {own : List Event} (h : p.Announces s done told) (hs : s.Becomes told s₁)
    (hf : f ∉ done) (hown : (recoveredPaths own).Sublist [f])
    (hiff : f ∈ recoveredPaths own ↔ p.patcher.Restores f s₁.tree s.cwd) :
    p.Announces s (done ++ [f]) (told ++ .storeCalled .pending f :: own) := by
  have happend : recoveredPaths (told ++ .storeCalled .pending f :: own) =
      recoveredPaths told ++ recoveredPaths own := recoveredPaths_append told _
  refine ⟨?_, fun g hg => ?_⟩
  · rw [happend]
    exact h.inOrder.append hown
  · rw [happend, List.mem_append]
    rw [List.mem_append, List.mem_singleton] at hg
    rcases hg with hg | rfl
    · obtain ⟨before, after, t, rfl, ht, hearlier⟩ := h.restored g hg
      refine ⟨before, after ++ .storeCalled .pending f :: own, t, by simp, ht, ?_⟩
      rw [← hearlier, or_iff_left]
      intro hmem
      obtain rfl := List.mem_singleton.1 (hown.subset hmem)
      exact hf hg
    · exact ⟨told, own, s₁.tree, rfl, hs.tree,
        (or_iff_right fun hmem => hf (h.inOrder.subset hmem)).trans hiff⟩

/-- **One source more** in a pass. -/
theorem Announces.step (h : p.Announces s done told) (hS : S.Reports done (recoveredPaths told))
    (hs : s.Becomes told s₁) (hm : p.mode = .apply) (habs : f.isAbsolute) (hf : f ∉ done)
    (hr : (p.step S f).runIn s₁ = (.ok S', s')) :
    ∃ told', s.Becomes told' s' ∧ p.Announces s (done ++ [f]) told' ∧
      S'.Reports (done ++ [f]) (recoveredPaths told') := by
  obtain ⟨own, hown, hsub, hiff, hanswer⟩ :=
    Patcher.patch_announces (p := p.patcher) hm habs s₁
  rw [hs.cwd] at hiff
  have hmore := h.extend hs hf hsub hiff
  have hreports : ∀ {S'' : Summary} (last : Event), last.Silent → S''.checkOnly = false →
      (S''.failed = S.failed ∧ S''.recovered = S.recovered ++ recoveredPaths own ∨
        S''.failed = S.failed ++ [f] ∧ S''.recovered = S.recovered) →
      S''.Reports (done ++ [f])
        (recoveredPaths (told ++ .storeCalled .pending f :: own ++ [last])) := by
    intro S'' last hlast hcheck hrecord
    rw [recoveredPaths_concat hlast, recoveredPaths_append]
    exact hS.extend h.inOrder.subset hf hsub.subset hcheck hrecord
  rcases step_eq_ok hr with ⟨o, s₂, hpatch, rfl, rfl⟩ | ⟨e, s₂, hpatch, rfl, rfl⟩ <;>
    rw [hpatch] at hown hanswer
  · have hlast : s₂.Becomes [.processed f o.action] (s₂.tell [.processed f o.action]) :=
      s₂.becomes_tell rfl
    have hfailed : (S.record o).failed = S.failed := by
      rw [Summary.failed, S.failures_record, Summary.failed]
    have hrecovered : (S.record o).recovered = S.recovered ++ recoveredPaths own := by
      rw [Summary.recovered_record hS.checkOnly, hanswer o rfl]
    exact ⟨_, (hs.trans hown).trans hlast, hmore.tell (by rfl), hreports _ (by rfl)
      ((S.checkOnly_record o).trans hS.checkOnly) (.inl ⟨hfailed, hrecovered⟩)⟩
  · have hlast : s₂.Becomes [.skipped f e.message] (s₂.tell [.skipped f e.message]) :=
      s₂.becomes_tell rfl
    have hfailed : (S.recordFailure f e.message).failed = S.failed ++ [f] := by
      simp [Summary.failed, Summary.recordFailure]
    exact ⟨_, (hs.trans hown).trans hlast, hmore.tell (by rfl), hreports _ (by rfl) hS.checkOnly
      (.inr ⟨hfailed, rfl⟩)⟩

theorem reports_blank (hm : p.mode = .apply) (files : List Path) :
    (p.blank root files).Reports [] [] :=
  ⟨by simp [blank, hm], by simp [Summary.failed, blank], by simp [blank]⟩

/-- Nothing is restored before the first source is treated. -/
theorem recoveredPaths_opening (p : Pass) (root : Path) (walk : Walk) :
    recoveredPaths (p.opening root walk) = [] := by
  refine recoveredPaths_eq_nil fun e he => ?_
  simp only [opening, List.mem_append, List.mem_map, List.mem_singleton] at he
  rcases he with (⟨finding, -, rfl⟩ | rfl) | rfl
  · cases finding <;> rfl
  · rfl
  · rfl

/-- **The events of a pass and its summary** say about recoveries what they should. -/
theorem run_announces (hm : p.mode = .apply) (hr : (p.run root).runIn s = (.ok S, s')) :
    ∃ told, s.Becomes told s' ∧ p.Announces s (s.tree.survey s.cwd p.config root).sources told ∧
      S.Reports (s.tree.survey s.cwd p.config root).sources (recoveredPaths told) := by
  have hnodup := Tree.nodup_sources s.tree s.cwd p.config root
  have habs : ∀ f ∈ (s.tree.survey s.cwd p.config root).sources, f.isAbsolute :=
    fun f hf => (Tree.exists_place hf).1
  rw [runIn_run] at hr
  generalize s.tree.survey s.cwd p.config root = walk at hr hnodup habs
  cases ho : walk.obstacle with
  | some failure => simp [ho] at hr
  | none =>
    simp only [ho] at hr
    rcases hloop : (walk.sources.foldlM p.step (p.blank root walk.sources)).runIn
      (s.tell (p.opening root walk)) with ⟨e | S₁, s₁⟩ <;> rw [hloop] at hr
    · simp at hr
    · obtain ⟨rfl, rfl⟩ : S₁ = S ∧ s₁.tell [.passFinished S₁] = s' := by
        cases hr
        exact ⟨rfl, rfl⟩
      have hopening : recoveredPaths (p.opening root walk) = [] :=
        p.recoveredPaths_opening root walk
      -- The invariant: the sources treated so far are told of and on record.
      obtain ⟨told, htold, hannounces, hreports⟩ : ∃ told, s.Becomes told s₁ ∧
          p.Announces s walk.sources told ∧ S₁.Reports walk.sources (recoveredPaths told) := by
        refine foldlM_ok
          (I := fun done S s₁ => ∃ told, s.Becomes told s₁ ∧ p.Announces s done told ∧
            S.Reports done (recoveredPaths told)) ?_ hloop
          ⟨_, s.becomes_tell (p.quiet_opening root walk).operations, ⟨by simp [hopening], by simp⟩,
            hopening.symm ▸ reports_blank hm walk.sources⟩
        rintro done f rest S s₁ S' s' hfiles ⟨told, htold, hannounces, hreports⟩ hstep
        rw [hfiles, List.nodup_append] at hnodup
        exact hannounces.step hreports htold hm (habs f (by simp [hfiles]))
          (fun hmem => hnodup.2.2 f hmem f (by simp) rfl) hstep
      have hlast : s₁.Becomes [.passFinished S₁] (s₁.tell [.passFinished S₁]) :=
        s₁.becomes_tell rfl
      have hsilent : (Event.passFinished S₁).Silent := rfl
      exact ⟨_, htold.trans hlast, hannounces.tell hsilent,
        by rwa [recoveredPaths_concat hsilent]⟩

end Pass

/-- **Recoveries told and recoveries reported.** Where a pass that may change sources ends with a
summary, recoveries have been announced in the order of the sources, and each just if the source was
restored: in the tree in which its treatment began, the backup was there, the source was written
with its content, and the backup was removed. The summary reports those announced, without the
sources that failed. So it reports all of them just if no source failed after it was restored. -/
theorem recoveries_reported {p : Pass} {s s' : Session} {root : Path} {summary : Summary}
    (hm : p.mode = .apply) (hr : (p.run root).runIn s = (.ok summary, s')) :
    ∃ told, s.Becomes told s' ∧
      (recoveredPaths told).Sublist (s.tree.survey s.cwd p.config root).sources ∧
      (∀ f ∈ (s.tree.survey s.cwd p.config root).sources, ∃ before after t,
        told = before ++ .storeCalled .pending f :: after ∧
        s.tree.performAll s.cwd (operations before) = .ok t ∧
        (f ∈ recoveredPaths told ↔ p.patcher.Restores f t s.cwd)) ∧
      summary.recovered = (recoveredPaths told).filter (· ∉ summary.failed) ∧
      (summary.recovered = recoveredPaths told ↔
        ∀ f ∈ recoveredPaths told, f ∉ summary.failed) := by
  obtain ⟨told, htold, hannounces, hreports⟩ := Pass.run_announces hm hr
  refine ⟨told, htold, hannounces.inOrder, hannounces.restored, hreports.recovered, ?_⟩
  rw [hreports.recovered, List.filter_eq_self]
  simp

/-- Of two sources with backups both are restored, and of one no new backup can be made after
that. -/
theorem recoveries_reported_of_store_fault :
    let t := (((Tree.lone (Bytes.ofString "a.py") (Bytes.ofString "x = 1")).put
      [Bytes.ofString "a.py.checker"] (.file (Bytes.ofString "y = 2"))).put
      [Bytes.ofString "b.py"] (.file (Bytes.ofString "z = 3"))).put
      [Bytes.ofString "b.py.checker"] (.file (Bytes.ofString "w = 4"))
    let p : Pass := ⟨{}, .apply, [⟨.store, Path.ofString "/b.py"⟩]⟩
    ∃ S s', (p.run (Path.ofString "/")).runIn ⟨t, [], []⟩ = (.ok S, s') ∧
      recoveredPaths s'.events = ["/a.py", "/b.py"].map Path.ofString ∧
      S.recovered = [Path.ofString "/a.py"] ∧ S.failed = [Path.ofString "/b.py"] := by
  intro t p
  have hrun : ((p.run (Path.ofString "/")).runIn ⟨t, [], []⟩).1.toOption.map Summary.failed =
        some [Path.ofString "/b.py"] ∧
      recoveredPaths ((p.run (Path.ofString "/")).runIn ⟨t, [], []⟩).2.events =
        ["/a.py", "/b.py"].map Path.ofString := by decide +kernel
  obtain ⟨hanswer, htold⟩ := hrun
  obtain ⟨S, s', hr, hfailed⟩ := Act.exists_runIn_of_map hanswer
  rw [hr] at htold
  obtain ⟨told, hbecomes, -, -, hrecovered, -⟩ := recoveries_reported rfl hr
  obtain rfl : s'.events = told := hbecomes.events
  refine ⟨S, s', hr, htold, ?_, hfailed⟩
  rw [hrecovered, hfailed, htold]
  decide +kernel

/-- A source is restored, its backup is gone, and the recovery is announced; but the summary knows
of none, since the declaration could not be inserted after that. -/
theorem recovery_not_reported :
    let t := (Tree.lone (Bytes.ofString "a.py") (Bytes.ofString "x = 1\n")).put
      [Bytes.ofString "a.py.checker"] (.file (Bytes.ofString "y = 2\n"))
    let p : Pass := ⟨{}, .apply, [⟨.store, Path.ofString "/a.py"⟩]⟩
    let after := (p.run (Path.ofString "/")).runIn ⟨t, [], []⟩
    printedText false after.2.events = "ℹ️  Backup file found for /a.py\n" ++
        "ℹ️  Restoring /a.py from its backup\n" ++ "✓ Recovered /a.py\n" ∧
      recoveredPaths after.2.events = [Path.ofString "/a.py"] ∧
      after.2.tree = Tree.lone (Bytes.ofString "a.py") (Bytes.ofString "y = 2\n") ∧
      after.1.toOption.map Summary.recovered = some [] := by
  decide +kernel

end SourceCoding
