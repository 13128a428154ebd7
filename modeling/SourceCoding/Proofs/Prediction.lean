import SourceCoding.Proofs.Apart

/-!
# A check predicts a pass

A check judges a source by its backup where there is one, and leaves both as they are. A pass that
may change sources restores the source first and then judges what it has restored. So the two come
to the same for every source, and where the sources do not get in each other's way they come to the
same for all: what the check calls missing is inserted, what it leaves pending is restored, and what
fails in the one fails in the other with the same text.

## Main definitions

* `Action.carriedOut`, `Outcome.carriedOut`: what a check says, done
* `Summary.predicted`: what the summary of a check says about a pass

## Main results

* `turn_carriedOut`: a turn does what a turn that only inspects says
* `Summary.predicted_tally`: one source more in both summaries
* `check_predicts`: the summary of a check and that of a pass
-/

namespace SourceCoding

/-! ## One source -/

/-- What is to be done is done. -/
def Action.carriedOut : Action → Action
  | .wouldPatch => .patched
  | a => a

/-- The outcome of a check, carried out. -/
def Outcome.carriedOut (o : Outcome) : Outcome := { o with action := o.action.carriedOut }

section

variable {p q : Patcher} {d : Desk} {path : Path} {content : Bytes} {s : Session}
  {l : Location} {n : Bytes}

/-- **A turn does what a turn that only inspects says**, if the source is a file. -/
theorem turn_carriedOut (path : Path) (hp : p.mode = .apply) (hq : q.mode = .check)
    (hstore : q.store = p.store) (hf : ∀ point, p.store.strikes point path = false)
    (hsource : d.source = some (.file content)) :
    (p.turn path d).result = (q.turn path d).result.map Outcome.carriedOut := by
  have hf' : q.store.strikes .pending path = false := hstore ▸ hf .pending
  -- What is not a file in the place of the backup stops both turns.
  have hrefused : ∀ e, Tree.contentOf d.backup = .error e → e ≠ .notFound →
      (p.turn path d).result = (q.turn path d).result.map Outcome.carriedOut := by
    intro e he hne
    rw [(turn_of_refused path (hf .pending) he hne).1, (turn_of_refused path hf' he hne).1, hstore]
    rfl
  -- Otherwise some content counts, and both judge it.
  have hjudged : ∀ c, d.counted = some c → Plain d.backup →
      (p.turn path d).result = (q.turn path d).result.map Outcome.carriedOut := by
    intro c hc hb
    rw [(turn_of_no_fault path hp hf hc (by simp [hsource]) hb).1,
      turn_of_check_of_no_fault path hq hf' hc hb]
    cases isCompliant c <;> rfl
  obtain ⟨source, backup⟩ := d
  obtain rfl : source = some (.file content) := hsource
  rcases backup with _ | ⟨saved | _ | _⟩
  · exact hjudged content rfl plain_none
  · exact hjudged saved rfl (plain_file saved)
  · exact hrefused _ rfl (by simp)
  · exact hrefused _ rfl (by simp)

/-- **Patching does what a check says**, where no links are. -/
theorem patch_carriedOut (hp : p.mode = .apply) (hq : q.mode = .check) (hstore : q.store = p.store)
    (hf : ∀ point, p.store.strikes point path = false) (hb : p.store.Proper)
    (ht : s.tree.LinkFree) (he : s.tree.Enters s.cwd path l n)
    (hsource : s.tree.get? (l ++ [n]) = some (.file content)) :
    ((p.patch path).runIn s).1 = ((q.patch path).runIn s).1.map Outcome.carriedOut := by
  rcases patch_cases hb ht he with ⟨hu, told, hr⟩ | ⟨hu, t', hr, -⟩ <;>
    rcases patch_cases (hstore ▸ hb) ht he with ⟨hu', told', hr'⟩ | ⟨hu', t'', hr', -⟩
  · rw [hr, hr', hstore]
    rfl
  · exact absurd (hstore ▸ hu') hu
  · exact absurd (hstore ▸ hu) hu'
  · rw [hr, hr', hstore]
    exact turn_carriedOut path hp hq hstore hf hsource

theorem action_of_check {o : Outcome} (hq : q.mode = .check) (hb : q.store.Proper)
    (ht : s.tree.LinkFree) (he : s.tree.Enters s.cwd path l n)
    (ho : ((q.patch path).runIn s).1 = .ok o) : o.action ≠ .patched := by
  rcases patch_cases hb ht he with ⟨-, told, hr⟩ | ⟨-, t', hr, -⟩ <;> rw [hr] at ho
  · cases ho
  · rcases (turn_of_check path (s.tree.deskAt q.store.suffix l n) hq).2 with ⟨e, he⟩ | ⟨c, -, hc⟩
    · simp [he] at ho
    · obtain rfl := Except.ok.inj (hc.symm.trans ho)
      dsimp only
      split <;> simp

end

/-! ## All sources -/

namespace Summary

/-- **What the summary of a check says about a pass.** -/
def predicted (S : Summary) : Summary :=
  { S with
    checkOnly := false, patched := S.nonCompliant, nonCompliant := [],
    recovered := S.pendingBackups, pendingBackups := [] }

/-- **One source more** in the summary of a check and in the one that it predicts. -/
theorem predicted_tally {S : Summary} {r : Except Failure Outcome} (f : Path)
    (hS : S.checkOnly = true) (hr : ∀ o, r = .ok o → o.action ≠ .patched) :
    (S.tally f r).predicted = S.predicted.tally f (r.map Outcome.carriedOut) := by
  cases r with
  | error e => rfl
  | ok o =>
    obtain ⟨path, action, hadBackup⟩ := o
    cases action with
    | patched => exact absurd rfl (hr _ rfl)
    | alreadyCompliant => cases hadBackup <;> simp [tally, record, recordBackup, recordAction, hS,
        predicted, Except.map, Outcome.carriedOut, Action.carriedOut]
    | wouldPatch => cases hadBackup <;> simp [tally, record, recordBackup, recordAction, hS,
        predicted, Except.map, Outcome.carriedOut, Action.carriedOut]

/-- **All sources** in the summary of a check and in the one that it predicts. -/
theorem predicted_foldl {S : Summary} (files : List Path)
    (result result' : Path → Except Failure Outcome) (hS : S.checkOnly = true)
    (hr : ∀ f ∈ files, ∀ o, result f = .ok o → o.action ≠ .patched)
    (hresult : ∀ f ∈ files, result' f = (result f).map Outcome.carriedOut) :
    (files.foldl (fun S f => S.tally f (result f)) S).predicted =
      files.foldl (fun S f => S.tally f (result' f)) S.predicted := by
  induction files generalizing S with
  | nil => rfl
  | cons f rest ih =>
    rw [List.foldl_cons, List.foldl_cons, hresult f List.mem_cons_self,
      ← predicted_tally f hS (hr f List.mem_cons_self)]
    apply ih
    · rw [checkOnly_tally, hS]
    · exact fun g hg => hr g (List.mem_cons_of_mem _ hg)
    · exact fun g hg => hresult g (List.mem_cons_of_mem _ hg)

end Summary

/-- **A check predicts a pass.** In a tree without links, in which no source is the backup of
another one, a check and a pass without faults fail both with what ended the walk. Or both succeed,
and the pass has scanned as many sources, found as many in order, patched those that the check found
without a declaration, recovered those of which the check found a backup, and failed on the same
sources with the same texts. -/
theorem check_predicts {c : Config} {s : Session} {root : Path} (hc : c.Valid)
    (hfast : c.failFast = false) (ht : s.tree.LinkFree) (hap : s.tree.Apart s.cwd c root) :
    (∀ failure, (s.tree.survey s.cwd c root).obstacle = some failure →
      ∃ s₁ s₂, (Pass.run ⟨c, .check, []⟩ root).runIn s = (.error (.collecting root failure), s₁) ∧
        (Pass.run ⟨c, .apply, []⟩ root).runIn s = (.error (.collecting root failure), s₂)) ∧
    ((s.tree.survey s.cwd c root).obstacle = none →
      ∃ S A s₁ s₂, (Pass.run ⟨c, .check, []⟩ root).runIn s = (.ok S, s₁) ∧
        (Pass.run ⟨c, .apply, []⟩ root).runIn s = (.ok A, s₂) ∧
        A.filesScanned = S.filesScanned ∧ A.alreadyCompliant = S.alreadyCompliant ∧
        A.patched = S.nonCompliant ∧ A.recovered = S.pendingBackups ∧ A.failures = S.failures) := by
  have hfollows : ∀ mode, (Pass.mk c mode []).Follows c := fun mode => ⟨c.failFast, rfl⟩
  constructor
  · intro failure ho
    exact ⟨_, _, by rw [Pass.runIn_run, ho], by rw [Pass.runIn_run, ho]⟩
  · intro ho
    obtain ⟨s₁, hcheck⟩ := hap.run_eq hc (hfollows .check) hfast ht ho
    obtain ⟨s₂, happly⟩ := hap.run_eq hc (hfollows .apply) hfast ht ho
    refine ⟨_, _, s₁, s₂, hcheck, happly, ?_⟩
    -- Both passes treat every source in the tree as it is at first.
    have hpredicted := Summary.predicted_foldl
      (S := Pass.blank ⟨c, .check, []⟩ root (s.tree.survey s.cwd c root).sources)
      (s.tree.survey s.cwd c root).sources
      (fun f => (((Pass.patcher ⟨c, .check, []⟩).patch f).runIn s).1)
      (fun f => (((Pass.patcher ⟨c, .apply, []⟩).patch f).runIn s).1) rfl ?_ ?_
    · rw [show Pass.blank ⟨c, .apply, []⟩ root (s.tree.survey s.cwd c root).sources =
        (Pass.blank ⟨c, .check, []⟩ root (s.tree.survey s.cwd c root).sources).predicted from rfl,
        ← hpredicted]
      exact ⟨rfl, rfl, rfl, rfl, rfl⟩
    · intro f hf o hresult
      obtain ⟨d, n, b, hat, -⟩ := Tree.exists_desk ht hf
      exact action_of_check rfl ((hfollows .check).proper hc) ht hat.enters hresult
    · intro f hf
      obtain ⟨d, n, b, hat, hb⟩ := Tree.exists_desk ht hf
      exact patch_carriedOut rfl rfl rfl (Pass.strikes_of_no_faults rfl · f)
        ((hfollows .apply).proper hc) ht hat.enters hb

/-- A source with a backup is called missing and pending, and it is patched and recovered; a source
with a directory in the place of its backup fails in both passes. -/
theorem check_predicts_mixed :
    let t := (((Tree.lone (Bytes.ofString "a.py") (Bytes.ofString "x = 1")).put
      [Bytes.ofString "a.py.checker"] (.file (Bytes.ofString "y = 2"))).put
      [Bytes.ofString "b.py"] (.file (Bytes.ofString "z = 3"))).put
      [Bytes.ofString "b.py.checker"] .dir
    ∃ S A s₁ s₂,
      (Pass.run ⟨{}, .check, []⟩ (Path.ofString "/")).runIn ⟨t, [], []⟩ = (.ok S, s₁) ∧
      (Pass.run ⟨{}, .apply, []⟩ (Path.ofString "/")).runIn ⟨t, [], []⟩ = (.ok A, s₂) ∧
      A.patched = [Path.ofString "/a.py"] ∧ A.recovered = [Path.ofString "/a.py"] ∧
      A.failures.map SkippedSource.path = [Path.ofString "/b.py"] ∧ A.failures = S.failures := by
  intro t
  have hsources : (t.survey [] {} (Path.ofString "/")).sources =
      [Path.ofString "/a.py", Path.ofString "/b.py"] := by decide +kernel
  have ht : t.LinkFree :=
    (((Tree.linkFree_lone _ _).put (by simp)).put (by simp)).put (by simp)
  have hap : t.Apart [] {} (Path.ofString "/") := by
    unfold Tree.Apart
    rw [hsources]
    decide +kernel
  obtain ⟨-, hpasses⟩ := check_predicts (c := {}) (s := ⟨t, [], []⟩) Config.valid_default rfl ht hap
  obtain ⟨S, A, s₁, s₂, hcheck, happly, -, -, hpatched, hrecovered, hfailures⟩ :=
    hpasses (by decide +kernel)
  have hfound : ((Pass.run ⟨{}, .check, []⟩ (Path.ofString "/")).runIn
      ⟨t, [], []⟩).1.toOption.map (fun S => (S.nonCompliant, S.pendingBackups,
        S.failures.map SkippedSource.path)) =
      some ([Path.ofString "/a.py"], [Path.ofString "/a.py"], [Path.ofString "/b.py"]) := by
    decide +kernel
  rw [hcheck] at hfound
  simp only [Except.toOption, Option.map_some, Option.some.injEq, Prod.mk.injEq] at hfound
  obtain ⟨hmissing, hpending, hfailed⟩ := hfound
  exact ⟨S, A, s₁, s₂, hcheck, happly, hpatched.trans hmissing, hrecovered.trans hpending,
    hfailures ▸ hfailed, hfailures⟩

end SourceCoding
