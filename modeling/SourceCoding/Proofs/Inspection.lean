import SourceCoding.Proofs.Passes
import SourceCoding.Proofs.Treatment

/-!
# Inspection

Where sources are only inspected nothing is done to any file. A backup that is there is read in the
place of its source, and both stay as they are. So what is said of a source depends on the tree
alone, and a pass that only inspects leaves the tree as it was, be it broken off or not.

## Main definitions

* `Tree.judged`: the content by which a source is judged
* `Patcher.inspection`: what is said of a source that is only inspected

## Main results

* `runIn_patch_of_check`: inspecting a source says it and changes nothing
* `Pass.run_of_check`: a pass that only inspects changes nothing
-/

namespace SourceCoding

/-- **The content by which a source is judged** where it is only inspected: that of its backup, or
its own where it has none. -/
def Tree.judged (t : Tree) (cwd : Location) (b : BackupStore) (f : Path) :
    Except SystemError Bytes :=
  match t.read cwd (b.backupPath f) with
  | .error .notFound => t.read cwd f
  | found => found

/-- What is said of a content that may not be changed. -/
def Action.ofContent (content : Bytes) : Action :=
  if isCompliant content then .alreadyCompliant else .wouldPatch

/-- **What is said of a source** that is only inspected. -/
def Patcher.inspection (p : Patcher) (t : Tree) (cwd : Location) (f : Path) :
    Except Failure Outcome :=
  let slot := p.store.backupPath f
  if p.store.strikes .pending f then .error (.read slot (.other "backup unreadable"))
  else match t.read cwd slot with
    | .ok saved => .ok ⟨f, .ofContent saved, true⟩
    | .error .notFound => match t.read cwd f with
      | .ok content => .ok ⟨f, .ofContent content, false⟩
      | .error e => .error (.read f e)
    | .error e => .error (.read slot e)

section

variable {p : Patcher} {f : Path} {s : Session} {t : Tree} {cwd : Location} {o : Outcome}

/-- What is said of a source that can be judged is what is said of the content it is judged by. -/
theorem Patcher.inspection_eq_ok (h : p.inspection t cwd f = .ok o) :
    ∃ content, t.judged cwd p.store f = .ok content ∧ o.path = f ∧
      o.action = .ofContent content := by
  unfold inspection at h
  dsimp only at h
  split_ifs at h
  unfold Tree.judged
  cases hslot : t.read cwd (p.store.backupPath f) with
  | ok saved =>
    rw [hslot] at h
    cases h
    exact ⟨saved, rfl, rfl, rfl⟩
  | error e =>
    rw [hslot] at h
    cases e <;> try cases h
    cases hread : t.read cwd f with
    | ok content =>
      rw [hread] at h
      cases h
      exact ⟨content, rfl, rfl, rfl⟩
    | error e =>
      rw [hread] at h
      cases h

theorem runIn_settle_of_check (hm : p.mode = .check) (s : Session) (f : Path) (content : Bytes) :
    ∃ told, (p.settle f content).runIn s = (.ok (.ofContent content), s.tell told) := by
  unfold Patcher.settle Action.ofContent
  cases isCompliant content with
  | true => exact ⟨_, rfl⟩
  | false => exact ⟨[], by simp [hm]⟩

/-- **Inspecting a source** says what there is to say of it and changes nothing. -/
theorem runIn_patch_of_check (hm : p.mode = .check) (s : Session) (f : Path) :
    ∃ told, (p.patch f).runIn s = (p.inspection s.tree s.cwd f, s.tell told) := by
  unfold Patcher.patch Patcher.inspection
  dsimp only
  rw [Act.runIn_bind, runIn_pending]
  cases p.store.strikes .pending f with
  | true => exact ⟨_, rfl⟩
  | false =>
    simp only [Bool.false_eq_true, if_false]
    cases s.tree.read s.cwd (p.store.backupPath f) with
    | ok saved =>
      obtain ⟨told, hs⟩ := runIn_settle_of_check hm
        (s.tell [.storeCalled .pending f, .backupFound f, .backupLeft f]) f saved
      refine ⟨.storeCalled .pending f :: .backupFound f :: .backupLeft f :: told, ?_⟩
      simp [Patcher.reconcile, hm, hs]
    | error e =>
      cases e with
      | notFound =>
        simp only [Patcher.reconcile, Act.runIn_bind, runIn_readSource, Session.tree_tell,
          Session.cwd_tell]
        cases s.tree.read s.cwd f with
        | ok content =>
          obtain ⟨told, hs⟩ :=
            runIn_settle_of_check hm (s.tell [.storeCalled .pending f]) f content
          exact ⟨.storeCalled .pending f :: told, by simp [Except.mapError, hs]⟩
        | error e => exact ⟨_, rfl⟩
      | _ => exact ⟨_, rfl⟩

end

namespace Pass

variable {p : Pass}

/-- **A pass that only inspects changes nothing**, however it ends. -/
theorem run_of_check (hm : p.mode = .check) (root : Path) (s : Session) :
    ((p.run root).runIn s).2.tree = s.tree ∧ ((p.run root).runIn s).2.cwd = s.cwd := by
  refine run_kept (I := fun s' => s'.tree = s.tree ∧ s'.cwd = s.cwd) root (fun _ _ h => h) ?_
    ⟨rfl, rfl⟩
  intro f _ s₁ hs₁
  obtain ⟨told, hr⟩ := runIn_patch_of_check (p := p.patcher) hm s₁ f
  rw [hr]
  exact hs₁

end Pass

end SourceCoding
