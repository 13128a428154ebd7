import SourceCoding.Proofs.Linkless

/-!
# Sources apart

A source may stand under the path of another one's backup. Patching the one then takes the other for
a backup, and removes it. Where this is not so every source has its desk for itself, and what comes
of it in a pass is what would come of it alone, whatever comes of those treated before it.

## Main definitions

* `Tree.Apart`: no source is the backup of another one

## Main results

* `Tree.eq_backupPath`: what stands as a source in the place of a backup has its path
* `Tree.Apart.run_eq`: a pass answers for every source as if it were alone
* `Tree.Apart.run_kept`: what turns keep of the desk of a source a pass keeps
-/

namespace SourceCoding

theorem Path.append_descendant (root : Path) (init : Location) (n s : Bytes) :
    (root.descendant (init ++ [n])).append s = root.descendant (init ++ [n ++ s]) := by
  rw [descendant, descendant, List.foldl_append, List.foldl_append]
  show ((init.foldl child root).child n).append s = (init.foldl child root).child (n ++ s)
  unfold child
  split_ifs <;> simp [append]

namespace Tree

variable {t : Tree} {cwd d d' : Location} {c : Config} {p : Pass} {root f g : Path} {n n' : Bytes}
  {s : Session}

/-- **A source in the place of a backup has the path of the backup.** -/
theorem eq_backupPath {b : BackupStore} (hf : f ∈ (t.survey cwd c root).sources)
    (hg : g ∈ (t.survey cwd c root).sources) (hfn : t.Enters cwd f d n)
    (hgn : t.Enters cwd g d (n ++ b.suffix)) : g = b.backupPath f := by
  rw [BackupStore.backupPath]
  rcases mem_sources_beside hf hg hfn hgn with ⟨rfl, hn⟩ | ⟨init, rfl, rfl⟩
  · have hnil : b.suffix = [] := List.append_right_eq_self.1 hn.symm
    simp [hnil, Path.append]
  · exact (Path.append_descendant root init n b.suffix).symm

/-- **No source is the backup of another one.** -/
def Apart (t : Tree) (cwd : Location) (c : Config) (root : Path) : Prop :=
  ∀ f ∈ (t.survey cwd c root).sources, ∀ g ∈ (t.survey cwd c root).sources,
    g ≠ (BackupStore.ofConfig c).backupPath f

namespace Apart

variable (hap : t.Apart cwd c root)

include hap

theorem not_enters (hf : f ∈ (t.survey cwd c root).sources)
    (hg : g ∈ (t.survey cwd c root).sources) (hfn : t.Enters cwd f d n)
    (hgn : t.Enters cwd g d' n') : ¬ (d' = d ∧ n' = n ++ c.suffix) := by
  rintro ⟨rfl, rfl⟩
  exact hap f hf g hg (eq_backupPath hf hg hfn hgn)

/-- **The desk of a source stays** while another source is patched. -/
theorem desk_of_ne (h : Steady t cwd s) (hc : c.Valid) (hp : p.Follows c)
    (hf : f ∈ (t.survey cwd c root).sources) (hg : g ∈ (t.survey cwd c root).sources)
    (hfn : t.Enters cwd f d n) (hne : f ≠ g) :
    ((p.patcher.patch g).runIn s).2.tree.deskAt c.suffix d n = s.tree.deskAt c.suffix d n := by
  obtain ⟨d', n', hat⟩ := exists_sourceAt hg
  have hother := h.desk_of_other (d := d) (n := n) (hp.proper hc) hat.enters
  rw [hp.suffix] at hother
  apply hother
  · rintro ⟨rfl, rfl⟩
    exact hne (eq_of_enters hf hg hfn hat.enters)
  · exact hap.not_enters hg hf hat.enters hfn
  · rintro ⟨rfl, rfl⟩
    exact hap.not_enters hf hg hfn hat.enters ⟨rfl, rfl⟩

end Apart

/-- **A pass answers for every source as if it were alone**, where no source is the backup of
another one and a failure does not end the pass. -/
theorem Apart.run_eq (hap : s.tree.Apart s.cwd c root) (hc : c.Valid) (hp : p.Follows c)
    (hfast : p.config.failFast = false) (ht : s.tree.LinkFree)
    (ho : (s.tree.survey s.cwd c root).obstacle = none) :
    ∃ s', (p.run root).runIn s =
      (.ok ((s.tree.survey s.cwd c root).sources.foldl
        (fun S f => S.tally f ((p.patcher.patch f).runIn s).1)
        (p.blank root (s.tree.survey s.cwd c root).sources)), s') := by
  -- The invariant: the sources that have not been treated have their desks still.
  have hrun := Pass.run_tally (p := p) (s := s)
    (I := fun done s₁ => Steady s.tree s.cwd s₁ ∧ ∀ f ∈ (s.tree.survey s.cwd c root).sources,
      f ∉ done → ∀ d n, s.tree.Enters s.cwd f d n →
        s₁.tree.deskAt c.suffix d n = s.tree.deskAt c.suffix d n)
    root (fun f => ((p.patcher.patch f).runIn s).1) hfast
    (fun done s₁ es hI => ⟨hI.1.tell es, hI.2⟩) ?_ (hp.survey s.tree s.cwd root ▸ ho)
    ⟨.refl ht, fun _ _ _ _ _ _ => rfl⟩
  · rw [hp.survey] at hrun
    obtain ⟨s', hr, -⟩ := hrun
    exact ⟨s', hr⟩
  · intro done g rest s₁ hfiles hI
    obtain ⟨hs, hdesks⟩ := hI
    rw [hp.survey] at hfiles
    have hg : g ∈ (s.tree.survey s.cwd c root).sources := by simp [hfiles]
    have hfresh : g ∉ done := by
      have hnodup := nodup_sources s.tree s.cwd c root
      rw [hfiles, List.nodup_append] at hnodup
      intro hin
      exact hnodup.2.2 g hin g (by simp) rfl
    obtain ⟨d, n, hat⟩ := exists_sourceAt hg
    refine ⟨?_, (hs.patch (hp.proper hc) hat.enters).1, ?_⟩
    · apply (Steady.refl ht).patch_congr hs (hp.proper hc) hat.enters
      rw [hp.suffix]
      exact hdesks g hg hfresh d n hat.enters
    · intro f hf hdone d' n' hfn
      rw [List.mem_append, not_or, List.mem_singleton] at hdone
      rw [hap.desk_of_ne hs hc hp hf hg hfn hdone.2]
      exact hdesks f hf hdone.1 d' n' hfn

/-- **What turns keep of the desk of a source a pass keeps**, however it ends, where no source is
the backup of another one. -/
theorem Apart.run_kept {P : Desk → Prop} (hap : s.tree.Apart s.cwd c root) (hc : c.Valid)
    (hp : p.Follows c) (ht : s.tree.LinkFree) (hP : ∀ d, P d → P (p.patcher.turn f d).desk)
    (hf : f ∈ (s.tree.survey s.cwd c root).sources) (hfn : s.tree.Enters s.cwd f d n)
    (hd : P (s.tree.deskAt c.suffix d n)) :
    Steady s.tree s.cwd ((p.run root).runIn s).2 ∧
      P (((p.run root).runIn s).2.tree.deskAt c.suffix d n) := by
  refine hp.run_kept_at hc ht root ?_ hd
  intro g hg d' n' s₁ hat hs hd₁
  by_cases hne : f = g
  · subst hne
    have hkept := hs.desk_kept_of_apart (d := d) (n := n) (hp.proper hc) hfn hP
    rw [hp.suffix] at hkept
    refine hkept ?_ ?_ hd₁
    · exact hap.not_enters hf hf hfn hfn
    · rintro ⟨-, hn⟩
      exact hap.not_enters hf hf hfn hfn ⟨rfl, hn.symm⟩
  · rw [hap.desk_of_ne hs hc hp hf hg hfn hne]
    exact hd₁

end Tree

end SourceCoding
