import SourceCoding.Proofs.Survival
import SourceCoding.Proofs.Ways

/-!
# What a failure leaves

Patching writes twice and removes twice, and it may fail at each of these steps and before the
first of them. Whatever fails, the kind of the failure and the path it names tell where the content
is that counted at the start: all is as it was, or the content stands in the source alone, or it
stands in the backup. This holds of every path, also of one that ends in no name: such a path leads
to a directory or nowhere, and patching it changes nothing.

## Main definitions

* `Session.Leaves`: what a result tells about the files that are left

## Main results

* `Tree.Resolves.exists_last_of_linkFree`: where no links are, a path that leads to no directory
  ends in a name
* `patch_cases_of_any`: patching any path fails without a change, or the path ends in a name
* `leaves_of_shows`: a turn leaves what its result tells
* `patch_leaves`: patching leaves what its result tells, and changes nothing else
-/

namespace SourceCoding

open SourceCoding.Path (Step)

/-! ## Paths that end in a name -/

namespace Tree

variable {t : Tree} {aim : Aim} {b : Nat} {cwd here l : Location} {steps : List Step} {p : Path}
  {content : Bytes}

/-- **A path that leads to no directory ends in a name**, where no links are. -/
theorem Resolves.exists_last_of_linkFree (h : t.Resolves aim b here steps l) (ht : t.LinkFree)
    (hd : t.get? here = some .dir) (hl : t.get? l ≠ some .dir) :
    ∃ front d n, steps = front ++ [.name n] ∧ l = d ++ [n] ∧ n.length ≤ nameLimit ∧
      t.Resolves .use b here front d ∧ t.get? d = some .dir := by
  -- Induction on the walk: it starts in a directory and stays in directories up to the last name,
  -- which then leads to a file or nowhere.
  induction h with
  | here => exact absurd hd hl
  | stay _ ih =>
    obtain ⟨front, d, n, rfl, rfl, hn, hf, hd'⟩ := ih hd hl
    exact ⟨.stay :: front, d, n, rfl, rfl, hn, .stay hf, hd'⟩
  | slash _ ih =>
    obtain ⟨front, d, n, rfl, rfl, hn, hf, hd'⟩ := ih hd hl
    exact ⟨.slash :: front, d, n, rfl, rfl, hn, .slash hf, hd'⟩
  | up _ ih =>
    obtain ⟨front, d, n, rfl, rfl, hn, hf, hd'⟩ := ih (get?_dropLast (by simp [hd])) hl
    exact ⟨.up :: front, d, n, rfl, rfl, hn, .up hf, hd'⟩
  | @free _ here n hn _ => exact ⟨[], here, n, rfl, rfl, hn, .here, hd⟩
  | @file _ here n _ hn _ => exact ⟨[], here, n, rfl, rfl, hn, .here, hd⟩
  | @enter _ _ m _ _ _ hm hg _ ih =>
    obtain ⟨front, d, n, rfl, rfl, hn, hf, hd'⟩ := ih hg hl
    exact ⟨.name m :: front, d, n, rfl, rfl, hn, .enter (by simp) hm hg hf, hd'⟩
  | take _ hg => exact absurd hg (ht _ _)
  | link _ _ hg => exact absurd hg (ht _ _)

/-- Where no links are, a path that leads to no directory names a place. -/
theorem names_of_locate (ht : t.LinkFree) (hcwd : t.get? cwd = some .dir)
    (h : t.locate cwd aim p = .ok l) (hl : t.get? l ≠ some .dir) : t.Names cwd p l := by
  obtain ⟨ha, hr⟩ := locate_eq_ok.1 h
  obtain ⟨front, d, n, hs, rfl, hn, hf, hd⟩ :=
    hr.exists_last_of_linkFree ht (get?_start hcwd p) hl
  exact ⟨ha, ⟨d, n, rfl, hn, hd, front, hs, hf⟩, ht _⟩

/-- A file that can be read stands in the place that the path names. -/
theorem exists_names_of_read (ht : t.LinkFree) (hcwd : t.get? cwd = some .dir)
    (h : t.read cwd p = .ok content) : ∃ l, t.Names cwd p l ∧ t.get? l = some (.file content) := by
  cases hl : t.locate cwd .use p with
  | error e => simp [read_of_locate_error hl] at h
  | ok l =>
    rw [read_of_locate hl] at h
    have hfile := contentOf_eq_ok h
    exact ⟨l, names_of_locate ht hcwd hl (by simp [hfile]), hfile⟩

/-- The bytes that can be read are those of the file that the path leads to. -/
theorem bytesOf?_of_read (h : t.read cwd p = .ok content) : t.bytesOf? cwd p = some content := by
  cases hl : t.locate cwd .use p with
  | error e => simp [read_of_locate_error hl] at h
  | ok l =>
    rw [read_of_locate hl] at h
    simp [bytesOf?, (locate_eq_ok.1 hl).2.follow, h, Except.toOption]

/-- A path that can be written names a place. -/
theorem exists_names_of_write {t' : Tree} (ht : t.LinkFree) (hcwd : t.get? cwd = some .dir)
    (h : t.write cwd p content = .ok t') : ∃ l, t.Names cwd p l := by
  obtain ⟨l, hl, hdir, -⟩ := write_eq_ok h
  exact ⟨l, names_of_locate ht hcwd hl hdir⟩

theorem Names.inspect_file (h : t.Names cwd p l) (hl : t.get? l = some (.file content)) :
    t.inspect cwd p = .ok (.file content) :=
  entryAt_eq_ok.2 ⟨l, h.locate .inspect, hl⟩

end Tree

/-- **Patching any path**, where no links are: a failure to read, or a failure to restore the source
from a file under the path of the backup, and no change; or the path ends in a name. -/
theorem patch_cases_of_any {p : Patcher} {s : Session} (path : Path) (hm : p.mode = .apply)
    (ht : s.tree.LinkFree) (hcwd : s.tree.get? s.cwd = some .dir) :
    (∃ q e told, (p.patch path).runIn s = (.error (.read q e), s.tell told)) ∨
    (∃ saved e told, s.tree.read s.cwd (p.store.backupPath path) = .ok saved ∧
      (p.patch path).runIn s = (.error (.write path e), s.tell told)) ∨
    ∃ d n, s.tree.Enters s.cwd path d n := by
  cases hstrikes : p.store.strikes .pending path with
  | true =>
    refine .inl ⟨p.store.backupPath path, .other "backup unreadable",
      [.storeCalled .pending path], ?_⟩
    rw [Patcher.patch, Act.runIn_bind, runIn_pending, hstrikes]
    rfl
  | false =>
    cases hslot : s.tree.read s.cwd (p.store.backupPath path) with
    | ok saved =>
      -- The source is written first of all, which a path without a last name does not allow.
      cases hw : s.tree.write s.cwd path saved with
      | ok t' =>
        obtain ⟨l, -, ⟨d, n, -, -, he⟩, -⟩ := Tree.exists_names_of_write ht hcwd hw
        exact .inr (.inr ⟨d, n, he⟩)
      | error e =>
        refine .inr (.inl ⟨saved, e,
          [.storeCalled .pending path, .backupFound path, .restoring path], rfl, ?_⟩)
        simp [Patcher.patch, runIn_pending, hstrikes, hslot, Patcher.reconcile, hm,
          Patcher.restore, writeSource, Act.runIn_change, Tree.perform, hw]
    | error e =>
      by_cases he : e = .notFound
      · subst he
        cases hsource : s.tree.read s.cwd path with
        | ok content =>
          obtain ⟨l, ⟨-, ⟨d, n, -, -, he⟩, -⟩, -⟩ := Tree.exists_names_of_read ht hcwd hsource
          exact .inr (.inr ⟨d, n, he⟩)
        | error e =>
          refine .inl ⟨path, e, [.storeCalled .pending path], ?_⟩
          simp [Patcher.patch, runIn_pending, hstrikes, hslot, Patcher.reconcile, readSource,
            Act.runIn_query, hsource, Except.mapError]
      · exact .inl ⟨_, _, _, runIn_patch_of_refused hslot he⟩

/-! ## What a result tells -/

/-- **What a result tells about the files that are left.** A failure to read leaves all as it was. A
failure to write names the file that could not be written, and the content that counted stands in
the other one, in the source without a backup or in the backup. While the backup cannot be removed
the content stands there, and in the source, where it is restored or has got its declaration. A
success leaves the fixed content and no backup. No other failure occurs. -/
def Session.Leaves (s : Session) (c : Config) (path : Path) (result : Except Failure Outcome)
    (t : Tree) : Prop :=
  let slot := (BackupStore.ofConfig c).backupPath path
  match result with
  | .error (.read _ _) => t = s.tree
  | .error (.write q _) => ∃ content, s.logical? c path = some content ∧
      (q = slot ∧ t.inspect s.cwd path = .ok (.file content) ∧
          t.inspect s.cwd slot = .error .notFound ∨
        q = path ∧ t.inspect s.cwd slot = .ok (.file content))
  | .error (.cleanup q _) => ∃ content, s.logical? c path = some content ∧
      q = slot ∧ t.inspect s.cwd slot = .ok (.file content) ∧
      t.inspect s.cwd path = .ok (.file
        (if (s.tree.bytesOf? s.cwd slot).isSome then content
          else insertDeclaration c.declaration content))
  | .error _ => False
  | .ok _ => ∃ content, s.logical? c path = some content ∧
      t.inspect s.cwd path = .ok (.file (c.fixed content)) ∧
      t.inspect s.cwd slot = .error .notFound

section

variable {c : Config} {s : Session} {path : Path} {d : Location} {n : Bytes} {t' : Tree}
  {content : Bytes}

/-- The content of the backup, if there is one, is the content that counts. -/
theorem logical?_of_read (h : s.tree.read s.cwd ((BackupStore.ofConfig c).backupPath path) =
    .ok content) : s.logical? c path = some content := by
  rw [Session.logical?, Tree.bytesOf?_of_read h]
  rfl

/-- A tree that shows the desk of another one is that tree. -/
theorem Tree.Shows.eq_self {t t' : Tree} {l k : Location} {d : Desk} (h : t'.Shows t l k d)
    (hd : t.Holds l k d) : t' = t := by
  refine Tree.ext_get? fun m => ?_
  by_cases hl : m = l
  · rw [hl, h.holds.1, hd.1]
  by_cases hk : m = k
  · rw [hk, h.holds.2, hd.2]
  · exact h.other m hl hk

/-- **A turn leaves what its result tells**, in a tree that shows its desk. -/
theorem leaves_of_shows {p : Patcher} (hc : c.Valid) (hm : p.mode = .apply)
    (hstore : p.store.suffix = c.suffix) (hdecl : p.declaration = c.declaration)
    (ht : s.tree.LinkFree) (he : s.tree.Enters s.cwd path d n)
    (hu : (BackupStore.ofConfig c).Usable path n)
    (hs : t'.Shows s.tree (d ++ [n]) (d ++ [n ++ c.suffix])
      (p.turn path (s.tree.deskAt c.suffix d n)).desk) :
    s.Leaves c path (p.turn path (s.tree.deskAt c.suffix d n)).result t' := by
  obtain ⟨hlink, hext⟩ := hs.steady ⟨rfl, rfl⟩ ht
  obtain ⟨hsource, hslot⟩ := (he.mono hext).names (hc.proper []) hlink hu
  have hback : p.store.backupPath path = (BackupStore.ofConfig c).backupPath path := by
    rw [BackupStore.backupPath, hstore]
    rfl
  have hlogical := logical?_eq hc ht he
  have hbytes : s.tree.bytesOf? s.cwd ((BackupStore.ofConfig c).backupPath path) =
      (Tree.contentOf (s.tree.deskAt c.suffix d n).backup).toOption :=
    (he.append hc.slash_not_mem_suffix).bytesOf? ht
  -- A failure before any change, a source that cannot be restored, and then the steps in their
  -- order: the backup cannot be written, the source cannot be, the backup cannot be removed, or
  -- nothing fails.
  rcases turn_cases path (s.tree.deskAt c.suffix d n) hm with ⟨q, e, hr, hd⟩ |
    ⟨o, hcount, hplain, ⟨e, ⟨hr, hd⟩, hbackup⟩ |
      ⟨-, ⟨e, hr, hd⟩ | ⟨e, hr, hd⟩ | ⟨e, hr, hd⟩ | ⟨hr, hd⟩⟩⟩ <;> rw [hd] at hs <;> rw [hr]
  · exact hs.eq_self ⟨rfl, rfl⟩
  · exact ⟨o, hlogical.trans hcount, .inr ⟨rfl, hslot.inspect_file (hs.holds.2.trans hbackup)⟩⟩
  · exact ⟨o, hlogical.trans hcount, .inl ⟨hback, hsource.inspect_file hs.holds.1,
      hslot.inspect_none hs.holds.2⟩⟩
  · exact ⟨o, hlogical.trans hcount, .inr ⟨rfl, hslot.inspect_file hs.holds.2⟩⟩
  · refine ⟨o, hlogical.trans hcount, hback, hslot.inspect_file hs.holds.2, ?_⟩
    have hsome : (s.tree.bytesOf? s.cwd ((BackupStore.ofConfig c).backupPath path)).isSome =
        (s.tree.deskAt c.suffix d n).backup.isSome := by
      rw [hbytes]
      rcases hplain with hb | ⟨b, hb⟩ <;> rw [hb] <;> rfl
    rw [hsome, ← hdecl]
    exact hsource.inspect_file hs.holds.1
  · refine ⟨o, hlogical.trans hcount, ?_, hslot.inspect_none hs.holds.2⟩
    rw [← Patcher.fixed_eq hdecl]
    exact hsource.inspect_file hs.holds.1

end

/-- **Patching leaves what its result tells**, for every configuration that is valid, every tree
without links, every path and all faults; and it changes no entry but that of the source and that of
its backup. -/
theorem patch_leaves {c : Config} {faults : List Fault} {path : Path} {s s' : Session}
    {result : Except Failure Outcome} (hc : c.Valid) (ht : s.tree.LinkFree)
    (hcwd : s.tree.get? s.cwd = some .dir)
    (hr : ((Patcher.ofConfig c .apply faults).patch path).runIn s = (result, s')) :
    s.Leaves c path result s'.tree ∧
      ∀ m, s'.tree.get? m ≠ s.tree.get? m →
        s.tree.locate s.cwd .inspect path = .ok m ∨
          s.tree.locate s.cwd .inspect ((BackupStore.ofConfig c).backupPath path) = .ok m := by
  rcases patch_cases_of_any (p := Patcher.ofConfig c .apply faults) path rfl ht hcwd with
    ⟨q, e, told, hr'⟩ | ⟨saved, e, told, hslot, hr'⟩ | ⟨d, n, he⟩
  · obtain ⟨rfl, rfl⟩ := Prod.mk.inj (hr.symm.trans hr')
    exact ⟨rfl, fun m hm => absurd rfl hm⟩
  -- The path of the backup may end in a name although that of the source does not.
  · obtain ⟨rfl, rfl⟩ := Prod.mk.inj (hr.symm.trans hr')
    obtain ⟨l, hnames, hfile⟩ := Tree.exists_names_of_read ht hcwd hslot
    exact ⟨⟨saved, logical?_of_read hslot, .inr ⟨rfl, hnames.inspect_file hfile⟩⟩,
      fun m hm => absurd rfl hm⟩
  · rcases patch_cases (p := Patcher.ofConfig c .apply faults) (hc.proper faults) ht he with
      ⟨-, told, hr'⟩ | ⟨hu, t', hr', hs⟩
    · obtain ⟨rfl, rfl⟩ := Prod.mk.inj (hr.symm.trans hr')
      exact ⟨rfl, fun m hm => absurd rfl hm⟩
    · obtain ⟨rfl, rfl⟩ := Prod.mk.inj (hr.symm.trans hr')
      refine ⟨leaves_of_shows hc rfl rfl rfl ht he hu hs, fun m hm => ?_⟩
      obtain ⟨hsource, hslot⟩ := he.names (hc.proper []) ht hu
      by_cases hl : m = d ++ [n]
      · exact .inl (hl ▸ hsource.locate .inspect)
      by_cases hk : m = d ++ [n ++ c.suffix]
      · exact .inr (hk ▸ hslot.locate .inspect)
      · exact absurd (hs.other m hl hk) hm

/-- A source of a tree whose backup cannot be removed. -/
theorem patch_leaves_of_discard_fault :
    let s : Session :=
      ⟨Tree.lone (Bytes.ofString "a.py") (Bytes.ofString "x = 1"), [], []⟩
    let faults : List Fault := [⟨.discard, Path.ofString "/a.py"⟩]
    (({} : Config).Valid ∧ s.tree.LinkFree ∧ s.tree.get? s.cwd = some .dir) ∧
    ∃ e s', ((Patcher.ofConfig {} .apply faults).patch (Path.ofString "/a.py")).runIn s =
        (.error (.cleanup (Path.ofString "/a.py.checker") e), s') ∧
      s.Leaves {} (Path.ofString "/a.py")
        (.error (.cleanup (Path.ofString "/a.py.checker") e)) s'.tree := by
  intro s faults
  have ht : s.tree.LinkFree := Tree.linkFree_lone _ _
  refine ⟨⟨Config.valid_default, ht, rfl⟩, .other "device busy", ?_⟩
  have hresult :
      (((Patcher.ofConfig {} .apply faults).patch (Path.ofString "/a.py")).runIn s).1 =
        .error (.cleanup (Path.ofString "/a.py.checker") (.other "device busy")) := by
    decide +kernel
  rcases hr : ((Patcher.ofConfig {} .apply faults).patch (Path.ofString "/a.py")).runIn s with
    ⟨result, s'⟩
  rw [hr] at hresult
  subst hresult
  exact ⟨s', rfl, (patch_leaves Config.valid_default ht rfl hr).1⟩

end SourceCoding
