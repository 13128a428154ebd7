import SourceCoding.Proofs.Actions
import SourceCoding.Proofs.Desk

/-!
# The treatment of one source

Patching a source in a whole tree comes to its turn on a desk: the desk of the two places that the
paths of the source and of its backup name. All else in the tree stays.

## Main definitions

* `Tree.Shows`: a tree has a desk in two places, and another tree everywhere else
* `Seated`: the paths of a source and of its backup have their places
* `ComesTo`: an action on a session does what a turn says

## Main results

* `comesTo_patch`: patching comes to `Patcher.turn`
* `runIn_patch_of_refused`: a backup that cannot be read stops the treatment before it changes
  anything
-/

namespace SourceCoding

/-! ## Trees that show a desk -/

/-- A tree holds the entries of a desk in two places. -/
def Tree.Holds (t : Tree) (l k : Location) (d : Desk) : Prop :=
  t.get? l = d.source ∧ t.get? k = d.backup

/-- **A tree shows a desk** in two places, and another tree everywhere else. -/
structure Tree.Shows (t' t : Tree) (l k : Location) (d : Desk) : Prop where
  /-- In the two places it has the desk. -/
  holds : t'.Holds l k d
  /-- Everywhere else it has the other tree. -/
  other : ∀ m, m ≠ l → m ≠ k → t'.get? m = t.get? m

namespace Tree

variable {t t' t'' : Tree} {cwd l k m : Location} {d d' : Desk} {e : Option Entry}

theorem Holds.shows (h : t.Holds l k d) : t.Shows t l k d := ⟨h, fun _ _ _ => rfl⟩

/-- What a later tree shows over an earlier one it shows over what came before. -/
theorem Shows.trans (h : t''.Shows t' l k d') (h' : t'.Shows t l k d) : t''.Shows t l k d' :=
  ⟨h.holds, fun m hl hk => (h.other m hl hk).trans (h'.other m hl hk)⟩

theorem Updates.shows_source (h : t.Updates t' l e) (hne : l ≠ k) (hd : t.Holds l k d) :
    t'.Shows t l k { d with source := e } :=
  ⟨⟨h.same, (h.other (Ne.symm hne)).trans hd.2⟩, fun _ hl _ => h.other hl⟩

theorem Updates.shows_backup (h : t.Updates t' k e) (hne : l ≠ k) (hd : t.Holds l k d) :
    t'.Shows t l k { d with backup := e } :=
  ⟨⟨(h.other hne).trans hd.1, h.same⟩, fun _ _ hk => h.other hk⟩

/-- Where the two places have no directories and no links, all of them are elsewhere and stay. -/
theorem Shows.extends (h : t'.Shows t l k d) (hl : Plain (t.get? l)) (hk : Plain (t.get? k)) :
    t'.Extends t := by
  intro m f hm hf
  -- Directories and links are not plain, so they stand elsewhere.
  have hplain : ¬ Plain (some f) := by
    rintro (hf' | ⟨c, hf'⟩)
    · cases hf'
    · exact hf c (Option.some.inj hf')
  rw [h.other m, hm]
  · rintro rfl
    exact hplain (hm ▸ hl)
  · rintro rfl
    exact hplain (hm ▸ hk)

end Tree

/-- **The places of a source and of its backup** in a tree. A source that is a link to a file has
its place at the file; where a fault puts a directory in its way it is no link. -/
structure Seated (b : BackupStore) (path : Path) (l k : Location) (t : Tree) (cwd : Location) :
    Prop where
  /-- The places differ. -/
  apart : l ≠ k
  /-- The backup has its place. -/
  slot : t.Names cwd (b.backupPath path) k
  /-- The source has its place. -/
  source : t.Names cwd path l ∨ t.Leads cwd path l ∧ b.strikes .commit path = false

namespace Seated

variable {b : BackupStore} {path : Path} {l k cwd : Location} {t t' : Tree} {d : Desk}

theorem read (h : Seated b path l k t cwd) : t.read cwd path = Tree.contentOf (t.get? l) := by
  rcases h.source with hn | ⟨hl, -⟩
  · exact hn.read
  · exact hl.read

theorem write (h : Seated b path l k t cwd) (hl : t.get? l ≠ some .dir) (c : Bytes) :
    ∃ t', t.write cwd path c = .ok t' ∧ t.Updates t' l (some (.file c)) := by
  rcases h.source with hn | ⟨hs, -⟩
  · exact hn.write hl c
  · exact hs.write c

theorem write_dir (h : Seated b path l k t cwd) (hl : t.get? l = some .dir) (c : Bytes) :
    t.write cwd path c = .error .isDirectory := by
  rcases h.source with hn | ⟨hs, -⟩
  · exact hn.write_dir hl c
  · obtain ⟨c', hc⟩ := hs.file
    simp [hl] at hc

/-- No link stands in the place of the source. -/
theorem plain (h : Seated b path l k t cwd) (hl : t.get? l ≠ some .dir) : Plain (t.get? l) := by
  rcases h.source with hn | ⟨hs, -⟩
  · cases hg : t.get? l with
    | none => exact plain_none
    | some e =>
      cases e with
      | file c => exact plain_file c
      | dir => exact absurd hg hl
      | link q => exact absurd hg (hn.direct q)
  · exact .inr hs.file

/-- **The places stay** while the source is a file or what it was. -/
theorem mono (h : Seated b path l k t cwd) (hs : t'.Shows t l k d) (hl : Plain (t.get? l))
    (hk : Plain (t.get? k)) (hb : Plain d.backup)
    (hd : d.source = t.get? l ∨ (∃ c, d.source = some (.file c)) ∨
      d.source = some .dir ∧ b.strikes .commit path) :
    Seated b path l k t' cwd := by
  -- Only contents have changed in the two places, or a directory has come to where no link was.
  have he := hs.extends hl hk
  refine ⟨h.apart, h.slot.mono he (hs.holds.2 ▸ hb.ne_link), ?_⟩
  have hsrc := hs.holds.1
  rcases h.source with hn | ⟨hf, hc⟩
  · left
    refine hn.mono he fun q hq => ?_
    rcases hd with hd | ⟨c, hd⟩ | ⟨hd, -⟩
    · exact hl.ne_link q (hd ▸ hsrc ▸ hq)
    · simp [hsrc, hd] at hq
    · simp [hsrc, hd] at hq
  · right
    refine ⟨hf.mono he ?_, hc⟩
    rcases hd with hd | ⟨c, hd⟩ | ⟨-, hd⟩
    · obtain ⟨c, hfile⟩ := hf.file
      exact ⟨c, by rw [hsrc, hd, hfile]⟩
    · exact ⟨c, by rw [hsrc, hd]⟩
    · simp [hc] at hd

end Seated

/-! ## Actions that come to a turn -/

/-- **An action does what a turn says** about two places. -/
def ComesTo {α : Type} (a : Act Failure α) (s : Session) (l k : Location) (u : Turn α) : Prop :=
  ∃ t', a.runIn s = (u.result, (s.withTree t').tell u.told) ∧ t'.Shows s.tree l k u.desk

section

variable {α β : Type} {a : Act Failure α} {f : α → Act Failure β} {s : Session} {l k : Location}
  {u : Turn α} {next : α → Desk → Turn β} {d : Desk} {path : Path} {b : BackupStore} {c : Bytes}

theorem comesTo_of_same {result : Except Failure α} {told : List Event}
    (ha : a.runIn s = (result, s.tell told)) (hd : s.tree.Holds l k d) :
    ComesTo a s l k ⟨result, d, told⟩ :=
  ⟨s.tree, by simpa using ha, hd.shows⟩

/-- **One action after another** comes to one turn after another. -/
theorem ComesTo.bind (ha : ComesTo a s l k u)
    (hf : ∀ x, u.result = .ok x → ∀ t', t'.Shows s.tree l k u.desk →
      ComesTo (f x) ((s.withTree t').tell u.told) l k (next x u.desk)) :
    ComesTo (a >>= f) s l k (u.bind next) := by
  obtain ⟨t', hr, hs⟩ := ha
  unfold Turn.bind
  cases hu : u.result with
  | error e => exact ⟨t', by rw [Act.runIn_bind, hr, hu], hs⟩
  | ok x =>
    obtain ⟨t'', hr', hs'⟩ := hf x hu t' hs
    refine ⟨t'', ?_, hs'.trans hs⟩
    rw [Act.runIn_bind, hr, hu]
    simpa [Session.withTree_tell] using hr'

/-- An action after one that leaves the tree as it is. -/
theorem ComesTo.bind_of_same {result : Except Failure α} {told : List Event}
    (ha : a.runIn s = (result, s.tell told)) (hd : s.tree.Holds l k d)
    (hf : ∀ x, result = .ok x → ComesTo (f x) (s.tell told) l k (next x d)) :
    ComesTo (a >>= f) s l k (Turn.bind ⟨result, d, told⟩ next) := by
  unfold Turn.bind
  cases result with
  | error e => exact comesTo_of_same (by rw [Act.runIn_bind, ha]) hd
  | ok x =>
    obtain ⟨t', hr, hs⟩ := hf x rfl
    refine ⟨t', ?_, hs⟩
    rw [Act.runIn_bind, ha]
    simpa [Session.withTree_tell] using hr

theorem comesTo_pure (x : α) (hd : s.tree.Holds l k d) :
    ComesTo (pure x) s l k ⟨.ok x, d, []⟩ :=
  comesTo_of_same (by simp) hd

theorem comesTo_emit (e : Event) (hd : s.tree.Holds l k d) :
    ComesTo (emit e) s l k ⟨.ok (), d, [e]⟩ :=
  comesTo_of_same (Act.runIn_emit s e) hd

/-! ## The parts of the treatment -/

theorem runIn_readSource (s : Session) (path : Path) :
    (readSource path).runIn s = ((s.tree.read s.cwd path).mapError (.read path), s) :=
  Act.runIn_query s _ _

theorem comesTo_write (h : Seated b path l k s.tree s.cwd) (hd : s.tree.Holds l k d) :
    ComesTo (writeSource path c) s l k (writeTurn path c d) := by
  unfold ComesTo writeSource writeTurn
  rw [Act.runIn_change, Tree.perform]
  by_cases hdir : d.source = some .dir
  · rw [if_pos hdir, h.write_dir (hd.1.trans hdir)]
    exact ⟨s.tree, by simp, hd.shows⟩
  · obtain ⟨t', ht, hu⟩ := h.write (fun hl => hdir (hd.1.symm.trans hl)) c
    rw [if_neg hdir, ht]
    exact ⟨t', rfl, hu.shows_source h.apart hd⟩

theorem runIn_pending (s : Session) (b : BackupStore) (path : Path) :
    (b.pending path).runIn s =
      (if b.strikes .pending path then
          .error (.read (b.backupPath path) (.other "backup unreadable"))
        else match s.tree.read s.cwd (b.backupPath path) with
          | .ok saved => .ok (some saved)
          | .error .notFound => .ok none
          | .error e => .error (.read (b.backupPath path) e),
        s.tell [.storeCalled .pending path]) := by
  unfold BackupStore.pending
  rw [Act.runIn_bind, Act.runIn_emit]
  cases b.strikes .pending path with
  | true => simp
  | false =>
    simp only [Bool.false_eq_true, if_false, Act.runIn_bind, Act.runIn_get,
      Session.tree_tell, Session.cwd_tell]
    cases hr : s.tree.read s.cwd (b.backupPath path) with
    | ok saved => rfl
    | error e => cases e <;> rfl

theorem comesTo_discard (h : Seated b path l k s.tree s.cwd) (hd : s.tree.Holds l k d)
    (hb : d.backup = some (.file c)) :
    ComesTo (b.discard path) s l k (b.discardTurn path d) := by
  unfold ComesTo BackupStore.discard BackupStore.discardTurn
  rw [Act.runIn_bind, Act.runIn_emit]
  cases b.strikes .discard path with
  | true => exact ⟨s.tree, by simp, hd.shows⟩
  | false =>
    obtain ⟨t', ht, hu⟩ := h.slot.remove (hd.2.trans hb)
    refine ⟨t', ?_, hu.shows_backup h.apart hd⟩
    simp [Act.runIn_change, Tree.perform, ht, Session.withTree_tell]

/-- A directory takes the place of a source that is a file. -/
theorem runIn_obstruct (h : s.tree.Names s.cwd path l) (hl : s.tree.get? l = some (.file c)) :
    ∃ t', (BackupStore.obstruct path).runIn s =
        (.ok (), (s.withTree t').tell [.changed (.remove path), .changed (.makeDirectory path)]) ∧
      s.tree.Updates t' l (some .dir) := by
  obtain ⟨t₁, h₁, hu₁⟩ := h.remove hl
  have he : t₁.Extends s.tree := hu₁.extends (by simp [hl]) (by simp [hl])
  have hn : t₁.Names s.cwd path l := h.mono he (by simp [hu₁.same])
  obtain ⟨t₂, h₂, hu₂⟩ := hn.makeDirectory hu₁.same
  refine ⟨t₂, ?_, fun m => ?_⟩
  · simp [BackupStore.obstruct, Act.runIn_change, Tree.perform, h₁, h₂, Session.withTree_tell]
  · rw [hu₂ m, hu₁ m]
    split <;> rfl

/-- A backup is made where none is, of a source that is a file. -/
theorem comesTo_store {c' : Bytes} (h : Seated b path l k s.tree s.cwd) (hd : s.tree.Holds l k d)
    (hsrc : d.source = some (.file c')) (hb : d.backup = none) :
    ComesTo (b.store path c) s l k (b.storeTurn path c d) := by
  unfold ComesTo BackupStore.store BackupStore.storeTurn
  rw [Act.runIn_bind, Act.runIn_emit]
  cases b.strikes .store path with
  | true => exact ⟨s.tree, by simp, hd.shows⟩
  | false =>
    obtain ⟨t', ht, hu⟩ := h.slot.write (by simp [hd.2, hb]) c
    have hs := hu.shows_backup h.apart hd
    cases hc : b.strikes .commit path with
    | false =>
      refine ⟨t', ?_, hs⟩
      simp [Act.runIn_change, Tree.perform, ht, Session.withTree_tell]
    | true =>
      have hn : t'.Names s.cwd path l := by
        rcases h.source with hn | ⟨-, hc'⟩
        · refine hn.mono (hs.extends (hd.1 ▸ hsrc ▸ plain_file c') (hd.2 ▸ hb ▸ plain_none)) ?_
          simp [hs.holds.1, hsrc]
        · simp [hc] at hc'
      obtain ⟨t'', hr, hu'⟩ := runIn_obstruct
        (s := (s.withTree t').tell
          [.storeCalled (.store c) path, .changed (.write (b.backupPath path) c)])
        hn (hs.holds.1.trans hsrc)
      refine ⟨t'', ?_, (hu'.shows_source h.apart hs.holds).trans hs⟩
      simp [Act.runIn_change, Tree.perform, ht, Session.withTree_tell] at hr ⊢
      exact hr

/-! ## The treatment -/

variable {p : Patcher}

theorem comesTo_restore (h : Seated p.store path l k s.tree s.cwd) (hd : s.tree.Holds l k d)
    (hb : d.backup = some (.file c)) :
    ComesTo (p.restore path c) s l k (p.restoreTurn path c d) := by
  refine ComesTo.bind_of_same (Act.runIn_emit s _) hd fun _ _ => ?_
  refine ComesTo.bind (comesTo_write (s := s.tell _) h hd) fun _ hw t' hs => ?_
  -- The write succeeded, so no directory was in its way.
  have hdir : d.source ≠ some .dir := by
    intro hdir
    simp [writeTurn, hdir] at hw
  rw [writeTurn, if_neg hdir] at hs ⊢
  have h' : Seated p.store path l k t' s.cwd :=
    h.mono hs (h.plain (hd.1 ▸ hdir)) (hd.2 ▸ hb ▸ plain_file c) (hb ▸ plain_file c)
      (.inr (.inl ⟨c, rfl⟩))
  refine ComesTo.bind (comesTo_discard (s := ((s.tell _).withTree t').tell _) h' hs.holds hb)
    fun _ _ t'' hs' => ?_
  exact comesTo_emit _ hs'.holds

/-- A declaration goes into a source that is a file and has no backup. -/
theorem comesTo_declare (h : Seated p.store path l k s.tree s.cwd) (hd : s.tree.Holds l k d)
    (hsrc : d.source = some (.file c)) (hb : d.backup = none) :
    ComesTo (p.declare path c) s l k (p.declareTurn path c d) := by
  refine ComesTo.bind (comesTo_store h hd hsrc hb) fun _ hw t' hs => ?_
  have hl : Plain (s.tree.get? l) := hd.1 ▸ hsrc ▸ plain_file c
  have hk : Plain (s.tree.get? k) := hd.2 ▸ hb ▸ plain_none
  have hbackup : (p.store.storeTurn path c d).desk.backup = some (.file c) := by
    unfold BackupStore.storeTurn at hw ⊢
    split_ifs at hw ⊢ <;> simp_all
  have h' : Seated p.store path l k t' s.cwd := by
    refine h.mono hs hl hk (hbackup ▸ plain_file c) ?_
    unfold BackupStore.storeTurn
    split_ifs with h₁ h₂
    · exact .inl hd.1.symm
    · exact .inr (.inr ⟨rfl, h₂⟩)
    · exact .inl hd.1.symm
  generalize (p.store.storeTurn path c d).desk = d₁ at hs hbackup ⊢
  refine ComesTo.bind (comesTo_write (s := (s.withTree t').tell _) h' hs.holds)
    fun _ hw' t'' hs' => ?_
  have hdir : d₁.source ≠ some .dir := by
    intro hdir
    simp [writeTurn, hdir] at hw'
  rw [writeTurn, if_neg hdir] at hs' ⊢
  have h'' : Seated p.store path l k t'' s.cwd :=
    h'.mono hs' (h'.plain (hs.holds.1 ▸ hdir)) (hs.holds.2 ▸ hbackup ▸ plain_file c)
      (hbackup ▸ plain_file c) (.inr (.inl ⟨_, rfl⟩))
  refine ComesTo.bind (comesTo_discard (s := (((s.withTree t').tell _).withTree t'').tell _) h''
    hs'.holds hbackup) fun _ _ _ hs'' => ?_
  exact comesTo_emit _ hs''.holds

theorem comesTo_reconcile {backup : Option Bytes} (h : Seated p.store path l k s.tree s.cwd)
    (hd : s.tree.Holds l k d) (hb : ∀ saved ∈ backup, d.backup = some (.file saved)) :
    ComesTo (p.reconcile path backup) s l k (p.reconcileTurn path d backup) := by
  cases backup with
  | none =>
    refine comesTo_of_same ?_ hd
    rw [Patcher.reconcile, runIn_readSource, h.read, hd.1, Session.tell_nil]
  | some saved =>
    refine ComesTo.bind_of_same (Act.runIn_emit s _) hd fun _ _ => ?_
    dsimp only
    cases p.mode with
    | check => exact comesTo_of_same (by simp) hd
    | apply =>
      refine ComesTo.bind (comesTo_restore (s := s.tell _) h hd (hb saved rfl)) fun _ _ _ hs => ?_
      exact comesTo_pure _ hs.holds

/-- A content is dealt with. In a source that may be changed it must stand, without a backup. -/
theorem comesTo_settle (hd : s.tree.Holds l k d)
    (ha : p.mode = .apply → Seated p.store path l k s.tree s.cwd ∧ d.source = some (.file c) ∧
      d.backup = none) :
    ComesTo (p.settle path c) s l k (p.settleTurn path c d) := by
  unfold Patcher.settle Patcher.settleTurn
  split
  · exact comesTo_of_same (by simp) hd
  · cases hm : p.mode with
    | check => exact comesTo_pure _ hd
    | apply =>
      obtain ⟨h, hsrc, hb⟩ := ha hm
      exact ComesTo.bind (comesTo_declare h hd hsrc hb) fun _ _ _ hs => comesTo_pure _ hs.holds

/-- **Patching comes to the turn of the source**: what stands in its two places decides all. -/
theorem comesTo_patch (h : Seated p.store path l k s.tree s.cwd) (hd : s.tree.Holds l k d) :
    ComesTo (p.patch path) s l k (p.turn path d) := by
  have hpending : (p.store.pending path).runIn s =
      ((p.store.pendingTurn path d).result, s.tell [.storeCalled .pending path]) := by
    rw [runIn_pending, h.slot.read, hd.2]
    rfl
  refine ComesTo.bind_of_same hpending hd fun backup hb => ?_
  have hbackup := pendingTurn_eq_ok hb
  refine ComesTo.bind (comesTo_reconcile (s := s.tell _) h hd ?_) fun content hc t' hs => ?_
  · rintro saved rfl
    exact hbackup
  · refine ComesTo.bind (comesTo_settle hs.holds fun hm => ?_) fun _ _ _ hs' =>
      comesTo_pure _ hs'.holds
    obtain ⟨hdir, hdesk⟩ := reconcileTurn_eq_ok hm hbackup hc
    have hk : Plain (s.tree.get? k) := by
      rw [hd.2, hbackup]
      cases backup
      · exact plain_none
      · exact plain_file _
    rw [hdesk] at hs ⊢
    exact ⟨h.mono hs (h.plain (hd.1 ▸ hdir)) hk plain_none (.inr (.inl ⟨_, rfl⟩)), rfl, rfl⟩

end

/-- **A backup that cannot be read** stops the treatment before it changes anything. -/
theorem runIn_patch_of_refused {p : Patcher} {path : Path} {s : Session} {e : SystemError}
    (h : s.tree.read s.cwd (p.store.backupPath path) = .error e) (he : e ≠ .notFound) :
    (p.patch path).runIn s =
      (.error (.read (p.store.backupPath path)
          (if p.store.strikes .pending path then .other "backup unreadable" else e)),
        s.tell [.storeCalled .pending path]) := by
  rw [Patcher.patch, Act.runIn_bind, runIn_pending, h]
  cases p.store.strikes .pending path with
  | true => rfl
  | false => cases e <;> first | exact absurd rfl he | rfl

end SourceCoding
