import Mathlib.Data.List.Induction
import Mathlib.Tactic.Common
import SourceCoding.Pass
import SourceCoding.Proofs.Actions
import SourceCoding.Proofs.Recognition

/-!
# Passes as loops

A pass treats the sources it has found one after another. What every treatment keeps a pass keeps,
however it ends; and what holds of the sources treated so far holds of all at the end of a pass that
is not broken off.

## Main definitions

* `Summary.tally`: a summary with what came of one more source
* `Pass.Follows`: a pass has the settings of a configuration

## Main results

* `Pass.foldlM_kept`: what every treatment keeps the loop keeps
* `Pass.foldlM_ok`, `Pass.foldlM_total`: an invariant of the sources treated so far
* `Pass.run_kept`, `Pass.run_ok`, `Pass.run_total`: the same for a whole pass
* `Pass.run_tally`: a pass of which the results are known
-/

namespace SourceCoding

theorem runIn_collect (s : Session) (c : Config) (root : Path) :
    (collect c root).runIn s =
      match (s.tree.survey s.cwd c root).obstacle with
      | some failure => (.error failure,
          s.tell ((s.tree.survey s.cwd c root).findings.map Finding.event))
      | none => (.ok (s.tree.survey s.cwd c root).sources,
          s.tell ((s.tree.survey s.cwd c root).findings.map Finding.event ++
            [.collectionFinished root (s.tree.survey s.cwd c root).sources.length])) := by
  unfold collect
  rw [Act.runIn_bind, Act.runIn_get]
  dsimp only
  rw [Act.runIn_bind, Act.runIn_emitAll]
  cases (s.tree.survey s.cwd c root).obstacle with
  | some failure => rfl
  | none => simp

/-- **The summary with what came of one more source.** -/
def Summary.tally (S : Summary) (f : Path) : Except Failure Outcome → Summary
  | .ok o => S.record o
  | .error e => S.recordFailure f e.message

namespace Pass

variable (p : Pass)

/-! ## One source more -/

theorem runIn_step (s : Session) (summary : Summary) (f : Path) :
    (p.step summary f).runIn s =
      match (p.patcher.patch f).runIn s with
      | (.ok o, s') => (.ok (summary.record o), s'.tell [.processed f o.action])
      | (.error e, s') =>
        if p.config.failFast then (.error (.processing f e), s')
        else (.ok (summary.recordFailure f e.message), s'.tell [.skipped f e.message]) := by
  unfold step
  rw [Act.runIn_bind, Act.runIn_attempt]
  rcases (p.patcher.patch f).runIn s with ⟨e | o, s'⟩
  · cases hf : p.config.failFast <;> simp
  · simp

variable {p} {files : List Path} {summary summary' : Summary} {s s' : Session} {root : Path}

theorem step_of_ok {f : Path} {o : Outcome} (h : (p.patcher.patch f).runIn s = (.ok o, s')) :
    (p.step summary f).runIn s = (.ok (summary.record o), s'.tell [.processed f o.action]) := by
  rw [runIn_step, h]

/-- A step that succeeds has put an outcome or a failure on record. -/
theorem step_eq_ok {f : Path} (h : (p.step summary f).runIn s = (.ok summary', s')) :
    (∃ o s₁, (p.patcher.patch f).runIn s = (.ok o, s₁) ∧ summary' = summary.record o ∧
        s' = s₁.tell [.processed f o.action]) ∨
      ∃ e s₁, (p.patcher.patch f).runIn s = (.error e, s₁) ∧
        summary' = summary.recordFailure f e.message ∧ s' = s₁.tell [.skipped f e.message] := by
  rw [runIn_step] at h
  rcases hp : (p.patcher.patch f).runIn s with ⟨e | o, s₁⟩ <;> rw [hp] at h
  · dsimp only at h
    split_ifs at h
    · cases h
    · cases h
      exact .inr ⟨e, s₁, rfl, rfl, rfl⟩
  · cases h
    exact .inl ⟨o, s₁, rfl, rfl, rfl⟩

/-- A step that succeeds has put what came of the source on record, and has told of it. -/
theorem step_eq_tally {f : Path} (h : (p.step summary f).runIn s = (.ok summary', s')) :
    summary' = summary.tally f ((p.patcher.patch f).runIn s).1 ∧
      ∃ told, s' = ((p.patcher.patch f).runIn s).2.tell told := by
  rcases step_eq_ok h with ⟨o, s₁, hp, rfl, rfl⟩ | ⟨e, s₁, hp, rfl, rfl⟩ <;> rw [hp]
  · exact ⟨rfl, _, rfl⟩
  · exact ⟨rfl, _, rfl⟩

/-! ## The loop -/

/-- **What every treatment keeps the loop keeps**, however it ends. -/
theorem foldlM_kept {I : Session → Prop} (htell : ∀ s es, I s → I (s.tell es))
    (hstep : ∀ f ∈ files, ∀ s, I s → I ((p.patcher.patch f).runIn s).2) (hs : I s) :
    I ((files.foldlM p.step summary).runIn s).2 := by
  induction files generalizing summary s with
  | nil => exact hs
  | cons f rest ih =>
    have hf := hstep f List.mem_cons_self s hs
    rw [List.foldlM_cons, Act.runIn_bind, runIn_step]
    rcases hp : (p.patcher.patch f).runIn s with ⟨e | o, s₁⟩ <;> rw [hp] at hf
    · dsimp only
      split_ifs
      · exact hf
      · exact ih (fun g hg => hstep g (List.mem_cons_of_mem _ hg)) (htell _ _ hf)
    · exact ih (fun g hg => hstep g (List.mem_cons_of_mem _ hg)) (htell _ _ hf)

/-- **An invariant of the sources treated so far** holds of all where the loop is not broken off. -/
theorem foldlM_ok {I : List Path → Summary → Session → Prop}
    (hstep : ∀ done f rest S s S' s', files = done ++ f :: rest → I done S s →
      (p.step S f).runIn s = (.ok S', s') → I (done ++ [f]) S' s')
    (h : (files.foldlM p.step summary).runIn s = (.ok summary', s')) (h0 : I [] summary s) :
    I files summary' s' := by
  -- Induction from the end: the last step comes after those of the sources before it.
  induction files using List.reverseRecOn generalizing summary' s' with
  | nil =>
    cases h
    exact h0
  | append_singleton files f ih =>
    rw [List.foldlM_append, Act.runIn_bind] at h
    rcases hr : (files.foldlM p.step summary).runIn s with ⟨e | S, s₁⟩ <;> rw [hr] at h
    · cases h
    · refine hstep files f [] S s₁ summary' s' rfl (ih ?_ hr) (by simpa using h)
      intro done g rest S s S' s' hfiles
      exact hstep done g (rest ++ [f]) S s S' s' (by simp [hfiles])

/-- **An invariant that lets every step succeed** carries the loop to its end. -/
theorem foldlM_total {I : List Path → Summary → Session → Prop}
    (hstep : ∀ done f rest S s, files = done ++ f :: rest → I done S s →
      ∃ S' s', (p.step S f).runIn s = (.ok S', s') ∧ I (done ++ [f]) S' s')
    (h0 : I [] summary s) :
    ∃ S' s', (files.foldlM p.step summary).runIn s = (.ok S', s') ∧ I files S' s' := by
  induction files using List.reverseRecOn with
  | nil => exact ⟨summary, s, rfl, h0⟩
  | append_singleton files f ih =>
    obtain ⟨S, s₁, hr, hI⟩ := ih fun done g rest S s hfiles =>
      hstep done g (rest ++ [f]) S s (by simp [hfiles])
    obtain ⟨S', s', hs, hI'⟩ := hstep files f [] S s₁ rfl hI
    refine ⟨S', s', ?_, hI'⟩
    rw [List.foldlM_append, Act.runIn_bind, hr]
    simpa using hs

/-! ## The whole pass -/

/-- What is told before the first source is treated. -/
def opening (p : Pass) (root : Path) (walk : Walk) : List Event :=
  walk.findings.map Finding.event ++ [.collectionFinished root walk.sources.length] ++
    [.passStarted root walk.sources.length (p.mode = .check)]

/-- **A pass is a walk and a loop** over the sources found. -/
theorem runIn_run (p : Pass) (root : Path) (s : Session) :
    (p.run root).runIn s =
      match (s.tree.survey s.cwd p.config root).obstacle with
      | some failure => (.error (.collecting root failure),
          s.tell ((s.tree.survey s.cwd p.config root).findings.map Finding.event))
      | none =>
        match ((s.tree.survey s.cwd p.config root).sources.foldlM p.step
            (p.blank root (s.tree.survey s.cwd p.config root).sources)).runIn
            (s.tell (p.opening root (s.tree.survey s.cwd p.config root))) with
        | (.ok S, s') => (.ok S, s'.tell [.passFinished S])
        | (.error e, s') => (.error e, s') := by
  unfold run
  rw [Act.runIn_bind, Act.runIn_attempt, runIn_collect]
  cases (s.tree.survey s.cwd p.config root).obstacle with
  | some failure => rfl
  | none =>
    simp only [Act.runIn_pure, Act.runIn_bind, Act.runIn_emit, Session.tell_tell, opening]
    split <;> simp_all

/-- **What every treatment keeps a pass keeps**, however it ends. -/
theorem run_kept {I : Session → Prop} (root : Path) (htell : ∀ s es, I s → I (s.tell es))
    (hstep : ∀ f ∈ (s.tree.survey s.cwd p.config root).sources, ∀ s, I s →
      I ((p.patcher.patch f).runIn s).2) (hs : I s) :
    I ((p.run root).runIn s).2 := by
  rw [runIn_run]
  generalize s.tree.survey s.cwd p.config root = walk at hstep
  cases walk.obstacle with
  | some failure => exact htell _ _ hs
  | none =>
    have hI : I ((walk.sources.foldlM p.step (p.blank root walk.sources)).runIn
        (s.tell (p.opening root walk))).2 := foldlM_kept htell hstep (htell _ _ hs)
    dsimp only
    rcases h : (walk.sources.foldlM p.step (p.blank root walk.sources)).runIn
      (s.tell (p.opening root walk)) with ⟨e | S, s'⟩ <;> rw [h] at hI
    · exact hI
    · exact htell _ _ hI

/-- **An invariant of the sources treated so far** holds of all at the end of a pass that is not
broken off. -/
theorem run_ok {I : List Path → Summary → Session → Prop}
    (htell : ∀ done S s es, I done S s → I done S (s.tell es))
    (hstep : ∀ done f rest S s₁ S' s',
      (s.tree.survey s.cwd p.config root).sources = done ++ f :: rest →
      I done S s₁ → (p.step S f).runIn s₁ = (.ok S', s') → I (done ++ [f]) S' s')
    (h : (p.run root).runIn s = (.ok summary', s'))
    (h0 : I [] (p.blank root (s.tree.survey s.cwd p.config root).sources) s) :
    (s.tree.survey s.cwd p.config root).obstacle = none ∧
      I (s.tree.survey s.cwd p.config root).sources summary' s' := by
  rw [runIn_run] at h
  generalize s.tree.survey s.cwd p.config root = walk at hstep h h0
  cases ho : walk.obstacle with
  | some failure => simp [ho] at h
  | none =>
    refine ⟨rfl, ?_⟩
    simp only [ho] at h
    rcases hr : (walk.sources.foldlM p.step (p.blank root walk.sources)).runIn
      (s.tell (p.opening root walk)) with ⟨e | S, s₁⟩ <;> rw [hr] at h
    · simp at h
    · cases h
      exact htell _ _ _ _ (foldlM_ok hstep hr (htell _ _ _ _ h0))

/-- **An invariant that lets every step succeed** carries a pass to its end. -/
theorem run_total {I : List Path → Summary → Session → Prop}
    (htell : ∀ done S s es, I done S s → I done S (s.tell es))
    (hstep : ∀ done f rest S s₁, (s.tree.survey s.cwd p.config root).sources = done ++ f :: rest →
      I done S s₁ → ∃ S' s', (p.step S f).runIn s₁ = (.ok S', s') ∧ I (done ++ [f]) S' s')
    (ho : (s.tree.survey s.cwd p.config root).obstacle = none)
    (h0 : I [] (p.blank root (s.tree.survey s.cwd p.config root).sources) s) :
    ∃ S' s', (p.run root).runIn s = (.ok S', s') ∧
      I (s.tree.survey s.cwd p.config root).sources S' s' := by
  rw [runIn_run]
  generalize s.tree.survey s.cwd p.config root = walk at hstep ho h0
  obtain ⟨S', s', hr, hI⟩ := foldlM_total hstep (htell _ _ _ (p.opening root walk) h0)
  simp only [ho, hr]
  exact ⟨S', _, rfl, htell _ _ _ _ hI⟩

/-! ## Results one after another -/

/-- Where a failure does not end the pass, a step puts what came of the source on record. -/
theorem step_of_not_failFast (hfast : p.config.failFast = false) (S : Summary) (s : Session)
    (f : Path) :
    ∃ told, (p.step S f).runIn s = (.ok (S.tally f ((p.patcher.patch f).runIn s).1),
      ((p.patcher.patch f).runIn s).2.tell told) := by
  rw [runIn_step]
  rcases (p.patcher.patch f).runIn s with ⟨e | o, s'⟩
  · exact ⟨_, by simp only [hfast, Bool.false_eq_true, if_false]; rfl⟩
  · exact ⟨_, rfl⟩

/-- **A pass puts on record what comes of its sources**, one after another, where this is known
beforehand. -/
theorem run_tally {I : List Path → Session → Prop} (root : Path)
    (result : Path → Except Failure Outcome) (hfast : p.config.failFast = false)
    (htell : ∀ done s es, I done s → I done (s.tell es))
    (hstep : ∀ done f rest s₁, (s.tree.survey s.cwd p.config root).sources = done ++ f :: rest →
      I done s₁ → ((p.patcher.patch f).runIn s₁).1 = result f ∧
        I (done ++ [f]) ((p.patcher.patch f).runIn s₁).2)
    (ho : (s.tree.survey s.cwd p.config root).obstacle = none) (h0 : I [] s) :
    ∃ s', (p.run root).runIn s =
        (.ok ((s.tree.survey s.cwd p.config root).sources.foldl (fun S f => S.tally f (result f))
          (p.blank root (s.tree.survey s.cwd p.config root).sources)), s') ∧
      I (s.tree.survey s.cwd p.config root).sources s' := by
  -- The invariant: the results of the sources treated so far are on record.
  have hrun := run_total
    (I := fun done S s₁ => S = done.foldl (fun S f => S.tally f (result f))
      (p.blank root (s.tree.survey s.cwd p.config root).sources) ∧ I done s₁)
    (fun done S s₁ es hI => ⟨hI.1, htell done s₁ es hI.2⟩) ?_ ho ⟨rfl, h0⟩
  · obtain ⟨S, s', hr, rfl, hI⟩ := hrun
    exact ⟨s', hr, hI⟩
  · rintro done f rest S s₁ hfiles ⟨rfl, hI⟩
    obtain ⟨hresult, hI'⟩ := hstep done f rest s₁ hfiles hI
    obtain ⟨told, hs⟩ := step_of_not_failFast hfast
      (done.foldl (fun S f => S.tally f (result f)) (p.blank root _)) s₁ f
    rw [hresult] at hs
    exact ⟨_, _, hs, by simp, htell _ _ _ hI'⟩

/-! ## Passes with one configuration -/

/-- The pass has the settings of a configuration, save that it may end at the first failure or go
on. -/
def Follows (p : Pass) (c : Config) : Prop := ∃ failFast, p.config = { c with failFast }

section

variable {c : Config}

theorem Follows.survey (h : p.Follows c) (t : Tree) (cwd : Location) (root : Path) :
    t.survey cwd p.config root = t.survey cwd c root := by
  obtain ⟨failFast, h⟩ := h
  rw [h]
  rfl

theorem Follows.declaration (h : p.Follows c) : p.patcher.declaration = c.declaration := by
  obtain ⟨failFast, h⟩ := h
  rw [Pass.patcher, h]
  rfl

theorem Follows.suffix (h : p.Follows c) : p.patcher.store.suffix = c.suffix := by
  obtain ⟨failFast, h⟩ := h
  rw [Pass.patcher, h]
  rfl

theorem Follows.backupPath (h : p.Follows c) (f : Path) :
    p.patcher.store.backupPath f = (BackupStore.ofConfig c).backupPath f := by
  rw [BackupStore.backupPath, h.suffix]
  rfl

end

/-- Where there are no faults none strikes. -/
theorem strikes_of_no_faults (h : p.faults = []) (point : FaultPoint) (f : Path) :
    p.patcher.store.strikes point f = false := by
  simp [patcher, Patcher.ofConfig, BackupStore.ofConfig, BackupStore.strikes, h]

end Pass

namespace Summary

/-- An outcome is put on record as an action and perhaps a backup, and nowhere else. -/
theorem record_eq (S : Summary) (o : Outcome) :
    ∃ compliant patched nonCompliant recovered pending, S.record o =
      { S with
        alreadyCompliant := compliant, patched := patched, nonCompliant := nonCompliant,
        recovered := recovered, pendingBackups := pending } := by
  unfold record recordBackup recordAction
  split <;> split <;> (try split) <;> exact ⟨_, _, _, _, _, rfl⟩

theorem failures_record (S : Summary) (o : Outcome) : (S.record o).failures = S.failures := by
  obtain ⟨_, _, _, _, _, h⟩ := S.record_eq o
  rw [h]

theorem checkOnly_record (S : Summary) (o : Outcome) : (S.record o).checkOnly = S.checkOnly := by
  obtain ⟨_, _, _, _, _, h⟩ := S.record_eq o
  rw [h]

theorem checkOnly_tally (S : Summary) (f : Path) (r : Except Failure Outcome) :
    (S.tally f r).checkOnly = S.checkOnly := by
  cases r with
  | error e => rfl
  | ok o => exact S.checkOnly_record o

theorem filesScanned_record (S : Summary) (o : Outcome) :
    (S.record o).filesScanned = S.filesScanned := by
  obtain ⟨_, _, _, _, _, h⟩ := S.record_eq o
  rw [h]

end Summary

end SourceCoding
