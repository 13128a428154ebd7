import SourceCoding.Proofs.Linkless

/-!
# Nothing changes in silence

A pass in a tree without links changes sources and backups of sources only, and it puts each source
on record of which this is so: as patched, as restored from its backup, or as failed. This is not a
matter of one list for one kind of change, as a source may fail after it has been restored, and a
backup may have the name of another source.

## Main definitions

* `Summary.Lists`: a summary names a source as one that a pass has changed, or may have
* `OnRecord`: what has changed so far is on record

## Main results

* `Steady.patch_changes`: what patching changes, and what it answers where it changes something
* `OnRecord.step`: one source more puts on record what it changes
* `changes_on_record`: every change of a pass is on record
-/

namespace SourceCoding

/-- **A summary names a source** among those that were patched, restored or not processed. -/
def Summary.Lists (S : Summary) (f : Path) : Prop :=
  f ∈ S.patched ∨ f ∈ S.recovered ∨ f ∈ S.failures.map SkippedSource.path

namespace Summary

variable {S : Summary} {f : Path} {r : Except Failure Outcome}

/-- What is named once stays named. -/
theorem Lists.tally (h : S.Lists f) (g : Path) (r : Except Failure Outcome) :
    (S.tally g r).Lists f := by
  cases r with
  | error e =>
    refine h.imp_right (Or.imp_right fun h => ?_)
    simp [Summary.tally, Summary.recordFailure, h]
  | ok o =>
    rcases h with h | h | h
    · refine .inl ?_
      unfold Summary.tally Summary.record recordBackup recordAction
      dsimp only
      split <;> split <;> (try split) <;> simp [h]
    · refine .inr (.inl ?_)
      unfold Summary.tally Summary.record recordBackup recordAction
      dsimp only
      split <;> split <;> (try split) <;> simp [h]
    · exact .inr (.inr (by rwa [Summary.tally, failures_record]))

/-- A source is named that fails, is patched, or is restored. -/
theorem lists_tally (hS : S.checkOnly = false)
    (hr : ∀ o, r = .ok o → o.path = f ∧ (o.action = .patched ∨ o.hadBackup)) :
    (S.tally f r).Lists f := by
  cases r with
  | error e => exact .inr (.inr (by simp [Summary.tally, Summary.recordFailure]))
  | ok o =>
    obtain ⟨rfl, ho | ho⟩ := hr o rfl
    · exact .inl (by simp [Summary.tally, Summary.record, ho, recordAction])
    · refine .inr (.inl ?_)
      simp only [Summary.tally, Summary.record, ho, if_true, recordBackup, hS,
        Bool.false_eq_true, if_false]
      cases o.action <;> simp [recordAction]

end Summary

/-! ## What patching changes -/

namespace Steady

variable {t : Tree} {cwd : Location} {s s' : Session} {p : Patcher} {path : Path} {d m : Location}
  {n : Bytes} {o : Outcome}

/-- **What patching changes** is the source or its backup, and only where sources may be changed. If
it succeeds it says that the source was patched or had a backup. -/
theorem patch_changes (h : Steady t cwd s) (hb : p.store.Proper) (he : t.Enters cwd path d n)
    (hm : ((p.patch path).runIn s).2.tree.get? m ≠ s.tree.get? m) :
    p.mode = .apply ∧ p.store.Usable path n ∧
      (m = d ++ [n] ∨ m = d ++ [n ++ p.store.suffix]) ∧
      ∀ o, ((p.patch path).runIn s).1 = .ok o →
        o.path = path ∧ (o.action = .patched ∨ o.hadBackup) := by
  have hplace : m = d ++ [n] ∨ m = d ++ [n ++ p.store.suffix] := by
    by_contra hnot
    exact hm ((h.patch hb he).2.1 m (fun hl => hnot (.inl hl)) fun hk => hnot (.inr hk))
  rcases patch_cases hb h.linkFree (h.enters he) with ⟨-, told, hr⟩ | ⟨hu, t', hr, hs⟩
  · exact absurd (by rw [hr]; rfl) hm
  rw [hr] at hm ⊢
  -- The desk of the source has changed, as nothing else has.
  have hdesk : (p.turn path (s.tree.deskAt p.store.suffix d n)).desk ≠
      s.tree.deskAt p.store.suffix d n := by
    intro hsame
    rw [hsame] at hs
    rcases hplace with rfl | rfl
    · exact hm hs.holds.1
    · exact hm hs.holds.2
  cases hmode : p.mode with
  | check => exact absurd (turn_of_check path _ hmode).1 hdesk
  | apply =>
    refine ⟨rfl, hu, hplace, fun o ho => ?_⟩
    rcases turn_of_apply path (s.tree.deskAt p.store.suffix d n) hmode with
      ⟨e, he', -⟩ | ⟨content, hcount, -, -, ⟨e, he', -⟩ | ⟨hok, hd⟩⟩
    · simp [he'] at ho
    · simp [he'] at ho
    obtain rfl := Except.ok.inj (hok.symm.trans ho)
    refine ⟨rfl, ?_⟩
    by_contra hnot
    simp only [not_or, Bool.not_eq_true, Option.isSome_eq_false_iff, Option.isNone_iff_eq_none]
      at hnot
    obtain ⟨haction, hnone⟩ := hnot
    have hcompliant : isCompliant content := by
      by_contra hc
      simp [hc] at haction
    refine hdesk (hd.trans ?_)
    generalize s.tree.deskAt p.store.suffix d n = desk at hcount hnone
    obtain ⟨source, backup⟩ := desk
    obtain rfl : backup = none := hnone
    obtain hsource | hbackup := Desk.mem_of_counted hcount
    · simp_all [Patcher.fixed]
    · cases hbackup

end Steady

/-! ## What a pass changes -/

section

variable {c : Config} {p : Pass} {root f : Path} {s s' s₁ s₂ : Session} {done : List Path}
  {summary S S' : Summary}

/-- **What has changed is on record**, when some of the sources have been treated. -/
structure OnRecord (c : Config) (p : Pass) (s : Session) (done : List Path) (S : Summary)
    (s₁ : Session) : Prop where
  /-- The directories are there, and no link has come in. -/
  steady : Steady s.tree s.cwd s₁
  /-- The summary says whether sources may be changed. -/
  checkOnly : S.checkOnly = decide (p.mode = .check)
  /-- What has changed is a source or its backup, and the summary names this source. -/
  named : ∀ m, s₁.tree.get? m ≠ s.tree.get? m → ∃ f ∈ done,
    (s.tree.Names s.cwd f m ∨
      s.tree.Names s.cwd ((BackupStore.ofConfig c).backupPath f) m) ∧ S.Lists f

/-- **One source more** puts on record what it changes. -/
theorem OnRecord.step (h : OnRecord c p s done S s₁) (hc : c.Valid) (hp : p.Follows c)
    (ht : s.tree.LinkFree) (hf : f ∈ (s.tree.survey s.cwd c root).sources)
    (hstep : (p.step S f).runIn s₁ = (.ok S', s₂)) : OnRecord c p s (done ++ [f]) S' s₂ := by
  obtain ⟨rfl, told, rfl⟩ := Pass.step_eq_tally hstep
  obtain ⟨d, n, hat⟩ := Tree.exists_sourceAt hf
  refine ⟨(h.steady.patch (hp.proper hc) hat.enters).1.tell told,
    (S.checkOnly_tally ..).trans h.checkOnly, fun m hm => ?_⟩
  by_cases hsame : ((p.patcher.patch f).runIn s₁).2.tree.get? m = s₁.tree.get? m
  · obtain ⟨g, hg, hnames, hlists⟩ := h.named m (hsame ▸ hm)
    exact ⟨g, List.mem_append_left _ hg, hnames, hlists.tally f _⟩
  · obtain ⟨hmode, hu, hplace, ho⟩ := h.steady.patch_changes (hp.proper hc) hat.enters hsame
    obtain ⟨hsource, hslot⟩ := hat.enters.names (hp.proper hc) ht hu
    rw [hp.backupPath] at hslot
    have hchecks : S.checkOnly = false := by
      rw [h.checkOnly, show p.mode = .apply from hmode]
      rfl
    refine ⟨f, by simp, ?_, Summary.lists_tally hchecks ho⟩
    rcases hplace with rfl | rfl
    · exact .inl hsource
    · exact .inr hslot

/-- **Nothing changes in silence.** When a pass ends with a summary, every entry that differs from
before is a source that it found or the backup of one, and the summary names the source as patched,
as restored or as failed. So a pass that names none has left the whole tree as it was. -/
theorem changes_on_record (hc : c.Valid) (hp : p.Follows c) (ht : s.tree.LinkFree)
    (hr : (p.run root).runIn s = (.ok summary, s')) :
    (∀ m, s'.tree.get? m ≠ s.tree.get? m → ∃ f ∈ (s.tree.survey s.cwd c root).sources,
      (s.tree.Names s.cwd f m ∨
        s.tree.Names s.cwd ((BackupStore.ofConfig c).backupPath f) m) ∧ summary.Lists f) ∧
    (summary.patched = [] → summary.recovered = [] → summary.failures = [] →
      s'.tree = s.tree) := by
  have hrun := Pass.run_ok (I := OnRecord c p s)
    (fun done S s₁ es h => ⟨h.steady.tell es, h.checkOnly, h.named⟩) ?_ hr
    ⟨.refl ht, rfl, fun m hm => absurd rfl hm⟩
  · have hnamed := hrun.2.named
    rw [hp.survey] at hnamed
    refine ⟨hnamed, fun hpatched hrecovered hfailures => Tree.ext_get? fun m => ?_⟩
    by_contra hm
    obtain ⟨f, -, -, hlists⟩ := hnamed m hm
    simp [Summary.Lists, hpatched, hrecovered, hfailures] at hlists
  · intro done f rest S s₁ S' s₂ hfiles h hstep
    have hf : f ∈ (s.tree.survey s.cwd c root).sources := by
      rw [← hp.survey, hfiles]
      simp
    exact h.step hc hp ht hf hstep

/-- A source that is restored from its backup, and then fails as the backup cannot be removed, is on
record though it was neither patched nor counted as restored. -/
theorem changes_on_record_of_discard_fault :
    let t := (Tree.lone (Bytes.ofString "a.py") (Bytes.ofString "x = 1")).put
      [Bytes.ofString "a.py.checker"] (.file (Bytes.ofString "y = 2"))
    let p : Pass := ⟨{}, .apply, [⟨.discard, Path.ofString "/a.py"⟩]⟩
    (({} : Config).Valid ∧ p.Follows {} ∧ t.LinkFree) ∧
    ∃ summary s', (p.run (Path.ofString "/")).runIn ⟨t, [], []⟩ = (.ok summary, s') ∧
      s'.tree.get? [Bytes.ofString "a.py"] ≠ t.get? [Bytes.ofString "a.py"] ∧
      ∃ f ∈ (t.survey [] {} (Path.ofString "/")).sources,
        (t.Names [] f [Bytes.ofString "a.py"] ∨
          t.Names [] ((BackupStore.ofConfig {}).backupPath f) [Bytes.ofString "a.py"]) ∧
        summary.Lists f := by
  intro t p
  have ht : t.LinkFree := (Tree.linkFree_lone _ _).put (by simp)
  have hp : p.Follows {} := ⟨false, rfl⟩
  refine ⟨⟨Config.valid_default, hp, ht⟩, ?_⟩
  have hended : ((p.run (Path.ofString "/")).runIn ⟨t, [], []⟩).1.toOption.isSome := by
    decide +kernel
  have hchanged : ((p.run (Path.ofString "/")).runIn ⟨t, [], []⟩).2.tree.get?
      [Bytes.ofString "a.py"] ≠ t.get? [Bytes.ofString "a.py"] := by decide +kernel
  rcases hr : (p.run (Path.ofString "/")).runIn ⟨t, [], []⟩ with ⟨e | summary, s'⟩ <;>
    rw [hr] at hended hchanged
  · cases hended
  · exact ⟨summary, s', rfl, hchanged,
      (changes_on_record Config.valid_default hp ht hr).1 _ hchanged⟩

end

end SourceCoding
