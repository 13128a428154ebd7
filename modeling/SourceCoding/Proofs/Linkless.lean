import SourceCoding.Proofs.Passes
import SourceCoding.Proofs.Recognition
import SourceCoding.Proofs.Sources
import SourceCoding.Proofs.Treatment

/-!
# Trees without links

Where no links are, a source and its backup stand beside each other in one directory, and patching
the source comes to its turn; or the path of the backup is too long for the system, and patching
fails at once. In either case all directories stay and no link comes in.

## Main definitions

* `BackupStore.Usable`: the path of a backup is one that the system takes
* `BackupStore.unreadable`: the failure where it is not
* `Tree.deskAt`: the desk of a source
* `Steady`: a session in which the directories of a tree are still there, and no links

## Main results

* `patch_cases`: what patching does in a tree without links
* `Steady.patch`: patching keeps a session steady
* `Steady.patch_congr`, `Steady.desk_congr`: what patching answers, and what it leaves on the desk
  of the source, depends on this desk alone
* `Steady.desk_of_other`: the desk of another source stays
* `Pass.Follows.run_kept_at`: what the treatment of every source keeps of a desk a pass keeps
-/

namespace SourceCoding

/-- A suffix that sets a backup apart from its source and leaves it in the same directory. -/
structure BackupStore.Proper (b : BackupStore) : Prop where
  /-- The suffix is not empty. -/
  ne_nil : b.suffix ≠ []
  /-- The suffix has no slash. -/
  slash_not_mem : Bytes.slash ∉ b.suffix

theorem Config.Valid.proper {c : Config} (h : c.Valid) (faults : List Fault) :
    (BackupStore.ofConfig c faults).Proper := ⟨h.suffix_ne_nil, h.slash_not_mem_suffix⟩

theorem Pass.Follows.proper {p : Pass} {c : Config} (h : p.Follows c) (hc : c.Valid) :
    p.patcher.store.Proper :=
  ⟨h.suffix ▸ hc.suffix_ne_nil, h.suffix ▸ hc.slash_not_mem_suffix⟩

/-- **The path of a backup is one that the system takes.** -/
def BackupStore.Usable (b : BackupStore) (path : Path) (n : Bytes) : Prop :=
  Tree.refusal? (b.backupPath path) = none ∧ (n ++ b.suffix).length ≤ nameLimit

/-- Why the system does not take the path of a backup. -/
def BackupStore.objection (b : BackupStore) (path : Path) : SystemError :=
  (Tree.refusal? (b.backupPath path)).getD .nameTooLong

/-- The failure to read a backup whose path the system does not take. -/
def BackupStore.unreadable (b : BackupStore) (path : Path) : Failure :=
  .read (b.backupPath path)
    (if b.strikes .pending path then .other "backup unreadable" else b.objection path)

theorem Pass.Follows.usable_iff {p : Pass} {c : Config} {path : Path} {n : Bytes}
    (h : p.Follows c) : p.patcher.store.Usable path n ↔ (BackupStore.ofConfig c).Usable path n := by
  rw [BackupStore.Usable, BackupStore.Usable, h.backupPath, h.suffix]
  rfl

/-- What ends a name with and without a suffix ends itself with the suffix. -/
theorem ending_of_append {e n s : Bytes} (h : e <:+ n) (h' : e <:+ n ++ s) : e <:+ e ++ s := by
  obtain ⟨x, rfl⟩ := h
  rw [List.append_assoc] at h'
  exact List.suffix_of_suffix_length_le h' (List.suffix_append x (e ++ s)) (by simp)

namespace Tree

/-- **The desk of a source**, by its directory and its name. -/
def deskAt (t : Tree) (suffix : Bytes) (d : Location) (n : Bytes) : Desk :=
  ⟨t.get? (d ++ [n]), t.get? (d ++ [n ++ suffix])⟩

variable {t t' : Tree} {cwd d : Location} {path : Path} {n : Bytes} {b : BackupStore}
  {l k : Location} {desk : Desk}

/-- A path is taken by the system if the longer path of its backup is. -/
theorem refusal?_of_append {suffix : Bytes} (hne : path.bytes ≠ [])
    (h : refusal? (path.append suffix) = none) : refusal? path = none := by
  rw [refusal?_eq_none, Path.bytes_append, List.mem_append, List.length_append] at h
  obtain ⟨h0, -, hlt⟩ := h
  refine refusal?_eq_none.2 ⟨?_, hne, ?_⟩
  · exact fun hm => h0 (.inl hm)
  · omega

theorem location_inj {d' : Location} {n' : Bytes} (h : d ++ [n] = d' ++ [n']) :
    d = d' ∧ n = n' := by
  obtain ⟨hd, hn⟩ := List.append_inj' h rfl
  exact ⟨hd, List.singleton_inj.1 hn⟩

theorem names_apart (hb : b.Proper) : d ++ [n] ≠ d ++ [n ++ b.suffix] := by
  intro h
  have := List.append_cancel_left h
  simp [hb.ne_nil] at this

/-- **A desk stays** while another one changes, unless one of the two sources is the backup of the
other. -/
theorem deskAt_of_other {d' : Location} {n' s : Bytes}
    (hother : ∀ m, m ≠ d' ++ [n'] → m ≠ d' ++ [n' ++ s] → t'.get? m = t.get? m)
    (hsame : ¬ (d = d' ∧ n = n')) (hsource : ¬ (d = d' ∧ n = n' ++ s))
    (hbackup : ¬ (d = d' ∧ n ++ s = n')) : t'.deskAt s d n = t.deskAt s d n := by
  have hl : t'.get? (d ++ [n]) = t.get? (d ++ [n]) := by
    apply hother
    · exact fun he => hsame (location_inj he)
    · exact fun he => hsource (location_inj he)
  have hk : t'.get? (d ++ [n ++ s]) = t.get? (d ++ [n ++ s]) := by
    apply hother
    · exact fun he => hbackup (location_inj he)
    · intro he
      exact hsame ⟨(location_inj he).1, List.append_cancel_right (location_inj he).2⟩
  rw [deskAt, deskAt, hl, hk]

/-- Where no links are, the paths of a source and of its backup name their places. -/
theorem Enters.names (h : t.Enters cwd path d n) (hb : b.Proper) (ht : t.LinkFree)
    (hu : b.Usable path n) :
    t.Names cwd path (d ++ [n]) ∧ t.Names cwd (b.backupPath path) (d ++ [n ++ b.suffix]) := by
  obtain ⟨ha, hlen⟩ := hu
  have hn : n.length ≤ nameLimit := by
    rw [List.length_append] at hlen
    omega
  exact ⟨⟨refusal?_of_append h.bytes_ne_nil ha, ⟨d, n, rfl, hn, h⟩, ht _⟩,
    ⟨ha, ⟨d, _, rfl, hlen, h.append hb.slash_not_mem⟩, ht _⟩⟩

/-- Where no links are, a source and its backup have their places. -/
theorem Enters.seated (h : t.Enters cwd path d n) (hb : b.Proper) (ht : t.LinkFree)
    (hu : b.Usable path n) : Seated b path (d ++ [n]) (d ++ [n ++ b.suffix]) t cwd := by
  obtain ⟨hsource, hslot⟩ := h.names hb ht hu
  exact ⟨names_apart hb, hslot, .inl hsource⟩

/-- What is found as a source in a tree without links is a file on its desk. -/
theorem exists_desk {c : Config} {root f : Path} (ht : t.LinkFree)
    (hf : f ∈ (t.survey cwd c root).sources) :
    ∃ d n b, t.SourceAt cwd c f d n ∧ (t.deskAt c.suffix d n).source = some (.file b) := by
  obtain ⟨d, n, hat⟩ := exists_sourceAt hf
  rcases hat.entry with ⟨b, hb⟩ | ⟨⟨q, hq⟩, -⟩
  · exact ⟨d, n, b, hat, hb⟩
  · exact absurd hq (ht _ q)

/-- **A path that the system does not take leads nowhere**, whatever stands in the tree. -/
theorem Enters.locate_of_not_usable (h : t.Enters cwd path d n) (hb : b.Proper)
    (hu : ¬ b.Usable path n) :
    b.objection path ≠ .notFound ∧
      ∀ aim, t.locate cwd aim (b.backupPath path) = .error (b.objection path) := by
  unfold BackupStore.objection
  cases ha : refusal? (b.backupPath path) with
  | some e =>
    refine ⟨?_, fun aim => by simp [locate, ha]⟩
    rintro rfl
    have hne := h.bytes_ne_nil
    simp [refusal?, BackupStore.backupPath, hne] at ha
    split_ifs at ha <;> cases ha
  | none =>
    -- The path as a whole is taken, so it is the name that is too long.
    have hlen : nameLimit < (n ++ b.suffix).length := Nat.lt_of_not_le fun hle => hu ⟨ha, hle⟩
    refine ⟨by simp, fun aim => ?_⟩
    rw [locate, ha]
    exact (h.append hb.slash_not_mem).follow_tooLong hlen _

theorem read_of_locate_error {e : SystemError} (h : t.locate cwd .use path = .error e) :
    t.read cwd path = .error e := by
  simp [Tree.read, status, entryAt, h, bind, Except.bind]

theorem inspect_of_locate_error {e : SystemError} (h : t.locate cwd .inspect path = .error e) :
    t.inspect cwd path = .error e := by
  simp [Tree.inspect, entryAt, h, bind, Except.bind]

end Tree

/-- **What patching does in a tree without links**: nothing, or the turn of the source. -/
theorem patch_cases {p : Patcher} {s : Session} {path : Path} {d : Location} {n : Bytes}
    (hb : p.store.Proper) (ht : s.tree.LinkFree) (h : s.tree.Enters s.cwd path d n) :
    (¬ p.store.Usable path n ∧
      ∃ told, (p.patch path).runIn s = (.error (p.store.unreadable path), s.tell told)) ∨
    (p.store.Usable path n ∧ ComesTo (p.patch path) s (d ++ [n]) (d ++ [n ++ p.store.suffix])
      (p.turn path (s.tree.deskAt p.store.suffix d n))) := by
  by_cases hu : p.store.Usable path n
  · exact .inr ⟨hu, comesTo_patch (h.seated hb ht hu) ⟨rfl, rfl⟩⟩
  · obtain ⟨hne, hl⟩ := h.locate_of_not_usable hb hu
    exact .inl ⟨hu, _, runIn_patch_of_refused (Tree.read_of_locate_error (hl .use)) hne⟩

/-! ## Trees with one file -/

/-- The tree with one file, in its root. -/
def Tree.lone (n : Bytes) (content : Bytes) : Tree := Tree.empty.put [n] (.file content)

theorem Tree.linkFree_empty : Tree.empty.LinkFree := by
  intro l q
  unfold Tree.get?
  split <;> simp [Tree.empty]

theorem Tree.LinkFree.put {t : Tree} {l : Location} {e : Entry} (h : t.LinkFree)
    (he : ∀ q, e ≠ .link q) : (t.put l e).LinkFree := by
  intro m q hm
  by_cases hw : t.Writable l
  · rw [Tree.get?_put hw] at hm
    split at hm
    · exact he q (Option.some.inj hm)
    · exact h m q hm
  · rw [Tree.put_of_not_writable hw] at hm
    exact h m q hm

theorem Tree.linkFree_empty_put (n : Bytes) {e : Entry} (he : ∀ q, e ≠ .link q) :
    (Tree.empty.put [n] e).LinkFree :=
  linkFree_empty.put he

theorem Tree.linkFree_lone (n content : Bytes) : (Tree.lone n content).LinkFree :=
  linkFree_empty_put n (by simp)

/-! ## Steady sessions -/

/-- **A session in which the directories of a tree are still there**, and no links. -/
structure Steady (t : Tree) (cwd : Location) (s : Session) : Prop where
  /-- The working directory stays. -/
  cwd_eq : s.cwd = cwd
  /-- There are no links. -/
  linkFree : s.tree.LinkFree
  /-- The directories are there. -/
  dirs : s.tree.Extends t

theorem Steady.refl {s : Session} (h : s.tree.LinkFree) : Steady s.tree s.cwd s :=
  ⟨rfl, h, .refl _⟩

theorem Steady.tell {t : Tree} {cwd : Location} {s : Session} (h : Steady t cwd s)
    (es : List Event) : Steady t cwd (s.tell es) :=
  ⟨h.cwd_eq, h.linkFree, h.dirs⟩

/-- What is shown on a desk after a turn keeps the directories, and brings in no link. -/
theorem Tree.Shows.steady {t t' : Tree} {l k : Location} {p : Patcher} {path : Path} {d : Desk}
    (h : t'.Shows t l k (p.turn path d).desk) (hd : t.Holds l k d) (ht : t.LinkFree) :
    t'.LinkFree ∧ t'.Extends t := by
  have hcases := turn_desk_cases p path d
  -- A link in the new tree would have been in the old one, since a turn leaves none.
  constructor
  · intro m q hm
    by_cases hl : m = l
    · subst hl
      rw [h.holds.1] at hm
      rcases hcases with he | ⟨-, -, -, hs | ⟨c, hs⟩⟩
      · exact ht m q (hd.1.trans (he ▸ hm))
      · simp [hs] at hm
      · simp [hs] at hm
    by_cases hk : m = k
    · subst hk
      rw [h.holds.2] at hm
      rcases hcases with he | ⟨-, -, hb, -⟩
      · exact ht m q (hd.2.trans (he ▸ hm))
      · exact hb.ne_link q hm
    · exact ht m q (h.other m hl hk ▸ hm)
  · rcases hcases with he | ⟨hdir, hb, -⟩
    · rw [he] at h
      intro m e hm _
      rw [← hm]
      by_cases hl : m = l
      · rw [hl, h.holds.1, hd.1]
      by_cases hk : m = k
      · rw [hk, h.holds.2, hd.2]
      · exact h.other m hl hk
    · refine h.extends ?_ (hd.2 ▸ hb)
      cases hl : t.get? l with
      | none => exact plain_none
      | some e =>
        cases e with
        | file c => exact plain_file c
        | dir => exact absurd (hd.1.symm.trans hl) hdir
        | link q => exact absurd hl (ht l q)

namespace Steady

variable {t : Tree} {cwd : Location} {s : Session} {p : Patcher} {path : Path} {d : Location}
  {n : Bytes}

theorem enters (h : Steady t cwd s) (he : t.Enters cwd path d n) :
    s.tree.Enters s.cwd path d n := h.cwd_eq ▸ he.mono h.dirs

/-- **Patching keeps a session steady**, and changes nothing but the desk of the source, which is
left as it is or as its turn leaves it. -/
theorem patch (h : Steady t cwd s) (hb : p.store.Proper) (he : t.Enters cwd path d n) :
    Steady t cwd ((p.patch path).runIn s).2 ∧
      (∀ m, m ≠ d ++ [n] → m ≠ d ++ [n ++ p.store.suffix] →
        ((p.patch path).runIn s).2.tree.get? m = s.tree.get? m) ∧
      (((p.patch path).runIn s).2.tree.deskAt p.store.suffix d n =
          s.tree.deskAt p.store.suffix d n ∨
        ((p.patch path).runIn s).2.tree.deskAt p.store.suffix d n =
          (p.turn path (s.tree.deskAt p.store.suffix d n)).desk) := by
  rcases patch_cases hb h.linkFree (h.enters he) with ⟨-, told, hr⟩ | ⟨-, t', hr, hs⟩
  · rw [hr]
    exact ⟨h.tell told, fun _ _ _ => rfl, .inl rfl⟩
  · rw [hr]
    obtain ⟨hlink, hext⟩ := hs.steady ⟨rfl, rfl⟩ h.linkFree
    refine ⟨⟨h.cwd_eq, hlink, hext.trans h.dirs⟩, hs.other, .inr ?_⟩
    exact (Desk.mk.injEq ..).mpr hs.holds

/-- **What patching answers** depends on the desk of the source alone. -/
theorem patch_congr {s' : Session} (h : Steady t cwd s) (h' : Steady t cwd s')
    (hb : p.store.Proper) (he : t.Enters cwd path d n)
    (hd : s'.tree.deskAt p.store.suffix d n = s.tree.deskAt p.store.suffix d n) :
    ((p.patch path).runIn s').1 = ((p.patch path).runIn s).1 := by
  rcases patch_cases hb h.linkFree (h.enters he) with ⟨hu, told, hr⟩ | ⟨hu, t₁, hr, -⟩ <;>
    rcases patch_cases hb h'.linkFree (h'.enters he) with ⟨hu', told', hr'⟩ | ⟨hu', t₁', hr', -⟩
  · rw [hr, hr']
  · exact absurd hu' hu
  · exact absurd hu hu'
  · rw [hr, hr', hd]

/-- **What patching leaves on the desk** of the source depends on that desk alone. -/
theorem desk_congr {s' : Session} (h : Steady t cwd s) (h' : Steady t cwd s')
    (hb : p.store.Proper) (he : t.Enters cwd path d n)
    (hd : s'.tree.deskAt p.store.suffix d n = s.tree.deskAt p.store.suffix d n) :
    ((p.patch path).runIn s').2.tree.deskAt p.store.suffix d n =
      ((p.patch path).runIn s).2.tree.deskAt p.store.suffix d n := by
  rcases patch_cases hb h.linkFree (h.enters he) with ⟨hu, told, hr⟩ | ⟨hu, t₁, hr, hs⟩ <;>
    rcases patch_cases hb h'.linkFree (h'.enters he) with ⟨hu', told', hr'⟩ | ⟨hu', t₁', hr', hs'⟩
  · rw [hr, hr']
    exact hd
  · exact absurd hu' hu
  · exact absurd hu hu'
  · rw [hr, hr']
    rw [hd] at hs'
    exact ((Desk.mk.injEq ..).mpr hs'.holds).trans ((Desk.mk.injEq ..).mpr hs.holds).symm

/-- **The desk of another source stays**, unless one of the two is the backup of the other. -/
theorem desk_of_other {d' : Location} {n' : Bytes} (h : Steady t cwd s) (hb : p.store.Proper)
    (he : t.Enters cwd path d' n') (hsame : ¬ (d = d' ∧ n = n'))
    (hsource : ¬ (d = d' ∧ n = n' ++ p.store.suffix))
    (hbackup : ¬ (d = d' ∧ n ++ p.store.suffix = n')) :
    ((p.patch path).runIn s).2.tree.deskAt p.store.suffix d n =
      s.tree.deskAt p.store.suffix d n :=
  Tree.deskAt_of_other (h.patch hb he).2.1 hsame hsource hbackup

/-- What turns keep of a desk is kept while its source or another one is patched. -/
theorem desk_kept_of_apart {P : Desk → Prop} {d' : Location} {n' : Bytes} (h : Steady t cwd s)
    (hb : p.store.Proper) (he : t.Enters cwd path d' n')
    (hP : ∀ d, P d → P (p.turn path d).desk) (hsource : ¬ (d = d' ∧ n = n' ++ p.store.suffix))
    (hbackup : ¬ (d = d' ∧ n ++ p.store.suffix = n'))
    (hd : P (s.tree.deskAt p.store.suffix d n)) :
    P (((p.patch path).runIn s).2.tree.deskAt p.store.suffix d n) := by
  by_cases hsame : d = d' ∧ n = n'
  · obtain ⟨rfl, rfl⟩ := hsame
    obtain ⟨-, -, hdesk | hdesk⟩ := h.patch hb he <;> rw [hdesk]
    · exact hd
    · exact hP _ hd
  · rw [h.desk_of_other hb he hsame hsource hbackup]
    exact hd

/-- **Patching that succeeds** leaves the content that counted, fixed, and no backup. -/
theorem patch_eq_ok {o : Outcome} {s' : Session} (h : Steady t cwd s) (hb : p.store.Proper)
    (hm : p.mode = .apply) (he : t.Enters cwd path d n)
    (hr : (p.patch path).runIn s = (.ok o, s')) :
    p.store.Usable path n ∧ Plain (s.tree.get? (d ++ [n ++ p.store.suffix])) ∧
      ∃ content, (s.tree.deskAt p.store.suffix d n).counted = some content ∧
        s'.tree.deskAt p.store.suffix d n = ⟨some (.file (p.fixed content)), none⟩ := by
  rcases patch_cases hb h.linkFree (h.enters he) with ⟨-, told, hr'⟩ | ⟨hu, t', hr', hs⟩
  · simp [hr] at hr'
  · rw [hr, Prod.mk.injEq] at hr'
    obtain ⟨hres, rfl⟩ := hr'
    rcases turn_of_apply path (s.tree.deskAt p.store.suffix d n) hm with
      ⟨e, he', -⟩ | ⟨content, hcount, -, hplain, ⟨e, he', -⟩ | ⟨-, hd⟩⟩
    · simp [he'] at hres
    · simp [he'] at hres
    · rw [hd] at hs
      exact ⟨hu, hplain, content, hcount, (Desk.mk.injEq ..).mpr hs.holds⟩

end Steady

/-- **What the treatment of every source keeps of a desk a pass keeps**, however it ends. -/
theorem Pass.Follows.run_kept_at {P : Desk → Prop} {p : Pass} {c : Config} {s : Session}
    {d : Location} {n : Bytes} (hp : p.Follows c) (hc : c.Valid) (ht : s.tree.LinkFree)
    (root : Path)
    (hstep : ∀ g ∈ (s.tree.survey s.cwd c root).sources, ∀ d' n' s₁,
      s.tree.SourceAt s.cwd c g d' n' → Steady s.tree s.cwd s₁ →
      P (s₁.tree.deskAt c.suffix d n) →
      P (((p.patcher.patch g).runIn s₁).2.tree.deskAt c.suffix d n))
    (hd : P (s.tree.deskAt c.suffix d n)) :
    Steady s.tree s.cwd ((p.run root).runIn s).2 ∧
      P (((p.run root).runIn s).2.tree.deskAt c.suffix d n) := by
  refine Pass.run_kept (p := p) (s := s) root
    (I := fun s₁ => Steady s.tree s.cwd s₁ ∧ P (s₁.tree.deskAt c.suffix d n))
    (fun s₁ es hI => ⟨hI.1.tell es, hI.2⟩) ?_ ⟨.refl ht, hd⟩
  intro g hg s₁ hI
  rw [hp.survey] at hg
  obtain ⟨d', n', hat⟩ := Tree.exists_sourceAt hg
  exact ⟨(hI.1.patch (hp.proper hc) hat.enters).1, hstep g hg d' n' s₁ hat hI.1 hI.2⟩

end SourceCoding
