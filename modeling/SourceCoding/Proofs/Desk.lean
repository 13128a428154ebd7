import SourceCoding.Patch
import SourceCoding.Proofs.Places

/-!
# Desks

What patching does to a source depends on what stands in two places only, that of the source and
that of its backup, and it changes nothing else. So it is a function on the two entries, a desk.

## Main definitions

* `Desk`: what stands in the two places
* `Turn`: a result, the two entries that are left and what is told
* `Turn.Fails`, `Turn.Succeeds`: a turn with its result and the desk it leaves
* `Patcher.turn`: the treatment of a source as a function on a desk

## Main results

* `turn_cases`: what a turn does where sources may be changed, by the kind of a failure
* `turn_of_apply`: the same for every failure
* `turn_of_check`: a turn that only inspects changes nothing
* `turn_of_settled`: a source that is in order is left as it is
* `turn_of_no_fault`, `turn_of_check_of_no_fault`: a turn without faults succeeds
-/

namespace SourceCoding

/-- **What stands in the places** of a source and of its backup. -/
structure Desk where
  /-- The source. -/
  source : Option Entry
  /-- Its backup. -/
  backup : Option Entry

/-- **What comes of an action** on a source. -/
structure Turn (α : Type) where
  /-- What the action answers. -/
  result : Except Failure α
  /-- What it leaves in the two places. -/
  desk : Desk
  /-- What is told. -/
  told : List Event

/-- A turn with another one after it, which is not reached where the first fails. -/
def Turn.bind {α β : Type} (u : Turn α) (next : α → Desk → Turn β) : Turn β :=
  match u.result with
  | .error e => ⟨.error e, u.desk, u.told⟩
  | .ok x => ⟨(next x u.desk).result, (next x u.desk).desk, u.told ++ (next x u.desk).told⟩

/-- **A turn fails**, and leaves a desk. -/
def Turn.Fails {α : Type} (u : Turn α) (e : Failure) (d : Desk) : Prop :=
  u.result = .error e ∧ u.desk = d

/-- **A turn succeeds**, and leaves a desk. -/
def Turn.Succeeds {α : Type} (u : Turn α) (x : α) (d : Desk) : Prop :=
  u.result = .ok x ∧ u.desk = d

/-- What stands in a place is a file or nothing. -/
def Plain (e : Option Entry) : Prop := e = none ∨ ∃ c, e = some (.file c)

theorem plain_none : Plain none := .inl rfl

theorem plain_file (c : Bytes) : Plain (some (.file c)) := .inr ⟨c, rfl⟩

theorem Plain.ne_link {e : Option Entry} (h : Plain e) (q : Path) : e ≠ some (.link q) := by
  rintro rfl
  rcases h with h | ⟨c, h⟩ <;> cases h

theorem Plain.ne_dir {e : Option Entry} (h : Plain e) : e ≠ some .dir := by
  rintro rfl
  rcases h with h | ⟨c, h⟩ <;> cases h

/-- **The content that counts**: that of the backup, or that of the source where there is none. -/
def Desk.counted (d : Desk) : Option Bytes :=
  match d.backup, d.source with
  | some (.file saved), _ => some saved
  | _, some (.file content) => some content
  | _, _ => none

/-- The content that counts is found in one of the two places. -/
theorem Desk.mem_of_counted {d : Desk} {c : Bytes} (h : d.counted = some c) :
    d.source = some (.file c) ∨ d.backup = some (.file c) := by
  rcases d with ⟨_ | ⟨_ | _ | _⟩, _ | ⟨_ | _ | _⟩⟩ <;> simp_all [Desk.counted]

/-! ## The treatment as a function on a desk -/

/-- The backup is looked for. -/
def BackupStore.pendingTurn (b : BackupStore) (path : Path) (d : Desk) : Turn (Option Bytes) :=
  let slot := b.backupPath path
  ⟨if b.strikes .pending path then .error (.read slot (.other "backup unreadable"))
    else match Tree.contentOf d.backup with
      | .ok saved => .ok (some saved)
      | .error .notFound => .ok none
      | .error e => .error (.read slot e), d, [.storeCalled .pending path]⟩

/-- A backup that is there is removed. -/
def BackupStore.discardTurn (b : BackupStore) (path : Path) (d : Desk) : Turn Unit :=
  let slot := b.backupPath path
  if b.strikes .discard path then
    ⟨.error (.cleanup slot (.other "device busy")), d, [.storeCalled .discard path]⟩
  else ⟨.ok (), { d with backup := none }, [.storeCalled .discard path, .changed (.remove slot)]⟩

/-- A backup is made where none is. After it the source may be in the way of writing. -/
def BackupStore.storeTurn (b : BackupStore) (path : Path) (content : Bytes) (d : Desk) :
    Turn Unit :=
  let slot := b.backupPath path
  let called := Event.storeCalled (.store content) path
  if b.strikes .store path then ⟨.error (.write slot (.other "disk full")), d, [called]⟩
  else if b.strikes .commit path then
    ⟨.ok (), ⟨some .dir, some (.file content)⟩, [called, .changed (.write slot content),
      .changed (.remove path), .changed (.makeDirectory path)]⟩
  else ⟨.ok (), { d with backup := some (.file content) }, [called, .changed (.write slot content)]⟩

/-- The source is written. -/
def writeTurn (path : Path) (content : Bytes) (d : Desk) : Turn Unit :=
  if d.source = some .dir then ⟨.error (.write path .isDirectory), d, []⟩
  else ⟨.ok (), { d with source := some (.file content) }, [.changed (.write path content)]⟩

namespace Patcher

variable (p : Patcher)

/-- The source is restored. -/
def restoreTurn (path : Path) (saved : Bytes) (d : Desk) : Turn Unit :=
  Turn.bind ⟨.ok (), d, [.restoring path]⟩ fun _ d =>
  (writeTurn path saved d).bind fun _ d =>
  (p.store.discardTurn path d).bind fun _ d => ⟨.ok (), d, [.recovered path]⟩

/-- The declaration is inserted. -/
def declareTurn (path : Path) (content : Bytes) (d : Desk) : Turn Unit :=
  (p.store.storeTurn path content d).bind fun _ d =>
  (writeTurn path (insertDeclaration p.declaration content) d).bind fun _ d =>
  (p.store.discardTurn path d).bind fun _ d => ⟨.ok (), d, [.inserted path]⟩

/-- The content that counts is found. -/
def reconcileTurn (path : Path) (d : Desk) : Option Bytes → Turn Bytes
  | none => ⟨(Tree.contentOf d.source).mapError (.read path), d, []⟩
  | some saved =>
    Turn.bind ⟨.ok (), d, [.backupFound path]⟩ fun _ d =>
    match p.mode with
    | .apply => (p.restoreTurn path saved d).bind fun _ d => ⟨.ok saved, d, []⟩
    | .check => ⟨.ok saved, d, [.backupLeft path]⟩

/-- The content is dealt with. -/
def settleTurn (path : Path) (content : Bytes) (d : Desk) : Turn Action :=
  if isCompliant content then ⟨.ok .alreadyCompliant, d, [.foundCompliant path]⟩
  else match p.mode with
    | .check => ⟨.ok .wouldPatch, d, []⟩
    | .apply => (p.declareTurn path content d).bind fun _ d => ⟨.ok .patched, d, []⟩

/-- **The treatment of a source** as a function on a desk. -/
def turn (path : Path) (d : Desk) : Turn Outcome :=
  (p.store.pendingTurn path d).bind fun backup d =>
  (p.reconcileTurn path d backup).bind fun content d =>
  (p.settleTurn path content d).bind fun action d => ⟨.ok ⟨path, action, backup.isSome⟩, d, []⟩

end Patcher

/-! ## What a turn that succeeds leaves -/

section

variable {α β : Type} {u : Turn α} {next : α → Desk → Turn β} {d : Desk} {path : Path}
  {b : BackupStore} {p : Patcher} {c : Bytes}

theorem Turn.bind_of_error {e : Failure} (h : u.result = .error e) :
    u.bind next = ⟨.error e, u.desk, u.told⟩ := by
  simp [Turn.bind, h]

theorem Turn.bind_of_ok {x : α} (h : u.result = .ok x) :
    u.bind next =
      ⟨(next x u.desk).result, (next x u.desk).desk, u.told ++ (next x u.desk).told⟩ := by
  simp [Turn.bind, h]

theorem Turn.Fails.bind {e : Failure} (h : u.Fails e d) : (u.bind next).Fails e d := by
  rw [Turn.bind_of_error h.1]
  exact ⟨rfl, h.2⟩

theorem Turn.Succeeds.bind_fails {x : α} {d' : Desk} {e : Failure} (h : u.Succeeds x d)
    (hn : (next x d).Fails e d') : (u.bind next).Fails e d' := by
  rw [Turn.bind_of_ok h.1, h.2]
  exact hn

theorem Turn.Succeeds.bind {x : α} {y : β} {d' : Desk} (h : u.Succeeds x d)
    (hn : (next x d).Succeeds y d') : (u.bind next).Succeeds y d' := by
  rw [Turn.bind_of_ok h.1, h.2]
  exact hn

@[simp] theorem pendingTurn_desk (b : BackupStore) (path : Path) (d : Desk) :
    (b.pendingTurn path d).desk = d := rfl

theorem contentOf_eq_ok {e : Option Entry} (h : Tree.contentOf e = .ok c) : e = some (.file c) := by
  rcases e with _ | ⟨_ | _ | _⟩ <;> simp_all [Tree.contentOf]

theorem pendingTurn_eq_ok {backup : Option Bytes}
    (h : (b.pendingTurn path d).result = .ok backup) : d.backup = backup.map .file := by
  unfold BackupStore.pendingTurn at h
  dsimp only at h
  split_ifs at h
  cases hb : d.backup with
  | none =>
    rw [hb] at h
    cases h
    rfl
  | some e =>
    rw [hb] at h
    cases e <;> cases h
    rfl

theorem pendingTurn_eq_error {e : Failure} (h : (b.pendingTurn path d).result = .error e) :
    ∃ e', e = .read (b.backupPath path) e' := by
  unfold BackupStore.pendingTurn at h
  dsimp only at h
  split at h
  · exact ⟨_, (Except.error.inj h).symm⟩
  · split at h <;> cases h
    exact ⟨_, rfl⟩

/-! ## What a turn can do -/

/-- The content that a turn which succeeds leaves of a content. -/
def Patcher.fixed (p : Patcher) (content : Bytes) : Bytes :=
  if isCompliant content then content else insertDeclaration p.declaration content

theorem restoreTurn_cases (p : Patcher) (path : Path) (hb : d.backup = some (.file c)) :
    d.source = some .dir ∧ (p.restoreTurn path c d).Fails (.write path .isDirectory) d ∨
    d.source ≠ some .dir ∧
      ((∃ e, (p.restoreTurn path c d).Fails (.cleanup (p.store.backupPath path) e)
          ⟨some (.file c), some (.file c)⟩) ∨
        p.store.strikes .discard path = false ∧
          (p.restoreTurn path c d).Succeeds () ⟨some (.file c), none⟩) := by
  by_cases hdir : d.source = some .dir <;> cases hs : p.store.strikes .discard path <;>
    simp [Turn.Fails, Turn.Succeeds, Patcher.restoreTurn, Turn.bind, writeTurn,
      BackupStore.discardTurn, hdir, hs, hb]

/-- Where sources may be changed, the content that counts comes to stand in the source, without a
backup. That a backup could be removed shows that no fault keeps backups from being removed. -/
theorem reconcileTurn_cases {backup : Option Bytes} (path : Path) (hm : p.mode = .apply)
    (hb : d.backup = backup.map .file) :
    (∃ e, (p.reconcileTurn path d backup).Fails (.read path e) d) ∨
    ∃ c, d.counted = some c ∧
      ((∃ e, (p.reconcileTurn path d backup).Fails (.write path e) d ∧
          d.backup = some (.file c)) ∨
        d.source ≠ some .dir ∧
          ((∃ e, (p.reconcileTurn path d backup).Fails (.cleanup (p.store.backupPath path) e)
              ⟨some (.file c), some (.file c)⟩ ∧ d.backup.isSome) ∨
            (d.backup.isSome → p.store.strikes .discard path = false) ∧
              (p.reconcileTurn path d backup).Succeeds c ⟨some (.file c), none⟩)) := by
  cases backup with
  | none =>
    cases hc : Tree.contentOf d.source with
    | error e =>
      exact .inl ⟨e, by simp [Turn.Fails, Patcher.reconcileTurn, hc, Except.mapError]⟩
    | ok c =>
      obtain ⟨source, backup⟩ := d
      obtain rfl : backup = none := hb
      obtain rfl := contentOf_eq_ok hc
      exact .inr ⟨c, rfl, .inr ⟨by simp, .inr ⟨by simp, rfl, rfl⟩⟩⟩
  | some saved =>
    have hrestore : (p.reconcileTurn path d (some saved)) =
        Turn.bind ⟨.ok (), d, [.backupFound path]⟩ fun _ d =>
          (p.restoreTurn path saved d).bind fun _ d => ⟨.ok saved, d, []⟩ := by
      simp [Patcher.reconcileTurn, hm]
    rw [hrestore]
    have hfound : (⟨.ok (), d, [.backupFound path]⟩ : Turn Unit).Succeeds () d := ⟨rfl, rfl⟩
    refine .inr ⟨saved, by simp [Desk.counted, hb], ?_⟩
    rcases restoreTurn_cases p path hb with ⟨-, he⟩ | ⟨hdir, ⟨e, he⟩ | ⟨hs, hr⟩⟩
    · exact .inl ⟨_, hfound.bind_fails he.bind, hb⟩
    · exact .inr ⟨hdir, .inl ⟨e, hfound.bind_fails he.bind, by simp [hb]⟩⟩
    · exact .inr ⟨hdir, .inr ⟨fun _ => hs, hfound.bind (hr.bind ⟨rfl, rfl⟩)⟩⟩

/-- A content that is found to count stands in the source, without a backup. -/
theorem reconcileTurn_eq_ok {backup : Option Bytes} (hm : p.mode = .apply)
    (hb : d.backup = backup.map .file) (h : (p.reconcileTurn path d backup).result = .ok c) :
    d.source ≠ some .dir ∧ (p.reconcileTurn path d backup).desk = ⟨some (.file c), none⟩ := by
  rcases reconcileTurn_cases path hm hb with
    ⟨e, he, -⟩ | ⟨c', -, ⟨e, ⟨he, -⟩, -⟩ | ⟨hdir, ⟨e, ⟨he, -⟩, -⟩ | ⟨-, hr, hd⟩⟩⟩
  · simp [he] at h
  · simp [he] at h
  · simp [he] at h
  · obtain rfl := Except.ok.inj (hr.symm.trans h)
    exact ⟨hdir, hd⟩

/-- The declaration comes in at once, or the source can be restored. -/
theorem declareTurn_cases (p : Patcher) (path : Path) (c : Bytes) :
    (∃ e, (p.declareTurn path c ⟨some (.file c), none⟩).Fails
        (.write (p.store.backupPath path) e) ⟨some (.file c), none⟩) ∨
    (∃ e, (p.declareTurn path c ⟨some (.file c), none⟩).Fails (.write path e)
        ⟨some .dir, some (.file c)⟩) ∨
    (p.store.strikes .discard path = true ∧
      ∃ e, (p.declareTurn path c ⟨some (.file c), none⟩).Fails
        (.cleanup (p.store.backupPath path) e)
        ⟨some (.file (insertDeclaration p.declaration c)), some (.file c)⟩) ∨
    (p.declareTurn path c ⟨some (.file c), none⟩).Succeeds ()
      ⟨some (.file (insertDeclaration p.declaration c)), none⟩ := by
  cases hs : p.store.strikes .store path <;> cases hc : p.store.strikes .commit path <;>
    cases hd : p.store.strikes .discard path <;>
    simp [Turn.Fails, Turn.Succeeds, Patcher.declareTurn, Turn.bind, writeTurn,
      BackupStore.storeTurn, BackupStore.discardTurn, hs, hc, hd]

/-- What is done about a content that stands in the source, without a backup. -/
theorem settleTurn_cases (path : Path) (c : Bytes) (hm : p.mode = .apply) :
    (∃ e, (p.settleTurn path c ⟨some (.file c), none⟩).Fails
        (.write (p.store.backupPath path) e) ⟨some (.file c), none⟩) ∨
    (∃ e, (p.settleTurn path c ⟨some (.file c), none⟩).Fails (.write path e)
        ⟨some .dir, some (.file c)⟩) ∨
    (p.store.strikes .discard path = true ∧
      ∃ e, (p.settleTurn path c ⟨some (.file c), none⟩).Fails
        (.cleanup (p.store.backupPath path) e)
        ⟨some (.file (insertDeclaration p.declaration c)), some (.file c)⟩) ∨
    (p.settleTurn path c ⟨some (.file c), none⟩).Succeeds
      (if isCompliant c then .alreadyCompliant else .patched)
      ⟨some (.file (p.fixed c)), none⟩ := by
  cases hc : isCompliant c with
  | true => simp [Turn.Fails, Turn.Succeeds, Patcher.settleTurn, Patcher.fixed, hc]
  | false =>
    simp only [Patcher.settleTurn, Patcher.fixed, hc, hm, Bool.false_eq_true, if_false]
    rcases declareTurn_cases p path c with ⟨e, he⟩ | ⟨e, he⟩ | ⟨hs, e, he⟩ | hr
    · exact .inl ⟨e, he.bind⟩
    · exact .inr (.inl ⟨e, he.bind⟩)
    · exact .inr (.inr (.inl ⟨hs, e, he.bind⟩))
    · exact .inr (.inr (.inr (hr.bind ⟨rfl, rfl⟩)))

/-- **What a turn does where sources may be changed**, case by case. The kind of a failure and the
path it names tell what is left: all as it was; or the content that counted, in the backup while the
source could not be written or the backup not be removed, and in the source alone when no backup
could be made of it. -/
theorem turn_cases (path : Path) (d : Desk) (hm : p.mode = .apply) :
    (∃ q e, (p.turn path d).Fails (.read q e) d) ∨
    ∃ c, d.counted = some c ∧ Plain d.backup ∧
      ((∃ e, (p.turn path d).Fails (.write path e) d ∧ d.backup = some (.file c)) ∨
        d.source ≠ some .dir ∧
          ((∃ e, (p.turn path d).Fails (.write (p.store.backupPath path) e)
              ⟨some (.file c), none⟩) ∨
            (∃ e, (p.turn path d).Fails (.write path e) ⟨some .dir, some (.file c)⟩) ∨
            (∃ e, (p.turn path d).Fails (.cleanup (p.store.backupPath path) e)
              ⟨some (.file (if d.backup.isSome then c else insertDeclaration p.declaration c)),
                some (.file c)⟩) ∨
            (p.turn path d).Succeeds
              ⟨path, if isCompliant c then .alreadyCompliant else .patched, d.backup.isSome⟩
              ⟨some (.file (p.fixed c)), none⟩)) := by
  unfold Patcher.turn
  cases hp : (p.store.pendingTurn path d).result with
  | error e =>
    obtain ⟨e, rfl⟩ := pendingTurn_eq_error hp
    have hfails : (p.store.pendingTurn path d).Fails (.read (p.store.backupPath path) e) d :=
      ⟨hp, rfl⟩
    exact .inl ⟨_, e, hfails.bind⟩
  | ok backup =>
    have hb := pendingTurn_eq_ok hp
    have hfound : (p.store.pendingTurn path d).Succeeds backup d := ⟨hp, rfl⟩
    have hplain : Plain d.backup := by
      cases backup
      · exact hb ▸ plain_none
      · exact hb ▸ plain_file _
    rcases reconcileTurn_cases path hm hb with
      ⟨e, he⟩ | ⟨c, hcount, ⟨e, he, hback⟩ | ⟨hdir, ⟨e, he, hback⟩ | ⟨hs, hr⟩⟩⟩
    · exact .inl ⟨_, e, hfound.bind_fails he.bind⟩
    · exact .inr ⟨c, hcount, hplain, .inl ⟨e, hfound.bind_fails he.bind, hback⟩⟩
    · refine .inr ⟨c, hcount, hplain, .inr ⟨hdir, .inr (.inr (.inl ⟨e, ?_⟩))⟩⟩
      rw [if_pos hback]
      exact hfound.bind_fails he.bind
    · refine .inr ⟨c, hcount, hplain, .inr ⟨hdir, ?_⟩⟩
      rcases settleTurn_cases path c hm with ⟨e, he⟩ | ⟨e, he⟩ | ⟨hstrikes, e, he⟩ | ho
      · exact .inl ⟨e, hfound.bind_fails (hr.bind_fails he.bind)⟩
      · exact .inr (.inl ⟨e, hfound.bind_fails (hr.bind_fails he.bind)⟩)
      · -- A fault that strikes now would have struck when the source was restored.
        have hnone : ¬ d.backup.isSome := fun hsome => by simp [hs hsome] at hstrikes
        rw [if_neg hnone]
        exact .inr (.inr (.inl ⟨e, hfound.bind_fails (hr.bind_fails he.bind)⟩))
      · have hsome : d.backup.isSome = backup.isSome := by simp [hb]
        rw [hsome]
        exact .inr (.inr (.inr (hfound.bind (hr.bind (ho.bind ⟨rfl, rfl⟩)))))

/-- What a turn does where sources may be changed, whatever the kind of a failure. It fails and
leaves all as it is; or it fails after it began with the content that counts, which still counts; or
it leaves the fixed content and no backup. -/
theorem turn_of_apply (path : Path) (d : Desk) (hm : p.mode = .apply) :
    (∃ e, (p.turn path d).result = .error e ∧ (p.turn path d).desk = d) ∨
    ∃ c, d.counted = some c ∧ d.source ≠ some .dir ∧ Plain d.backup ∧
      ((∃ e, (p.turn path d).result = .error e ∧
          ((p.turn path d).desk = ⟨some (.file c), none⟩ ∨
            (p.turn path d).desk.backup = some (.file c) ∧
              ((p.turn path d).desk.source = some .dir ∨
                ∃ c', (p.turn path d).desk.source = some (.file c')))) ∨
        (p.turn path d).result =
            .ok ⟨path, if isCompliant c then .alreadyCompliant else .patched, d.backup.isSome⟩ ∧
          (p.turn path d).desk = ⟨some (.file (p.fixed c)), none⟩) := by
  rcases turn_cases path d hm with ⟨q, e, he, hd⟩ | ⟨c, hcount, hplain, ⟨e, ⟨he, hd⟩, -⟩ |
    ⟨hdir, ⟨e, he, hd⟩ | ⟨e, he, hd⟩ | ⟨e, he, hd⟩ | ⟨hr, hd⟩⟩⟩
  · exact .inl ⟨_, he, hd⟩
  · exact .inl ⟨_, he, hd⟩
  · exact .inr ⟨c, hcount, hdir, hplain, .inl ⟨_, he, .inl hd⟩⟩
  · exact .inr ⟨c, hcount, hdir, hplain, .inl ⟨_, he, .inr (by simp [hd])⟩⟩
  · exact .inr ⟨c, hcount, hdir, hplain, .inl ⟨_, he, .inr (by simp [hd])⟩⟩
  · exact .inr ⟨c, hcount, hdir, hplain, .inr ⟨hr, hd⟩⟩

/-- **What a turn does where sources are only inspected**: nothing. -/
theorem turn_of_check (path : Path) (d : Desk) (hm : p.mode = .check) :
    (p.turn path d).desk = d ∧ ((∃ e, (p.turn path d).result = .error e) ∨
      ∃ c, d.counted = some c ∧ (p.turn path d).result =
        .ok ⟨path, if isCompliant c then .alreadyCompliant else .wouldPatch, d.backup.isSome⟩) := by
  unfold Patcher.turn
  cases hp : (p.store.pendingTurn path d).result with
  | error e =>
    rw [Turn.bind_of_error hp]
    exact ⟨rfl, .inl ⟨e, rfl⟩⟩
  | ok backup =>
    have hb := pendingTurn_eq_ok hp
    rw [Turn.bind_of_ok hp, pendingTurn_desk]
    cases backup with
    | none =>
      cases hc : Tree.contentOf d.source with
      | error e => simp [Turn.bind, Patcher.reconcileTurn, hc, Except.mapError]
      | ok c =>
        have hsrc := contentOf_eq_ok hc
        have hcount : d.counted = some c := by simp [Desk.counted, hb, hsrc]
        cases hcomp : isCompliant c <;>
          simp [Turn.bind, Patcher.reconcileTurn, Patcher.settleTurn, hc, Except.mapError, hcomp,
            hm, hb, hcount]
    | some saved =>
      have hcount : d.counted = some saved := by simp [Desk.counted, hb]
      cases hcomp : isCompliant saved <;>
        simp [Turn.bind, Patcher.reconcileTurn, Patcher.settleTurn, hcomp, hm, hb, hcount]

/-- A turn changes no directory and makes no link. -/
theorem turn_desk_cases (p : Patcher) (path : Path) (d : Desk) :
    (p.turn path d).desk = d ∨ d.source ≠ some .dir ∧ Plain d.backup ∧
      Plain (p.turn path d).desk.backup ∧
      ((p.turn path d).desk.source = some .dir ∨
        ∃ c, (p.turn path d).desk.source = some (.file c)) := by
  cases hm : p.mode with
  | check => exact .inl (turn_of_check path d hm).1
  | apply =>
    rcases turn_of_apply path d hm with
      ⟨-, -, hd⟩ | ⟨c, -, hdir, hplain, ⟨-, -, hd | ⟨hb, hs⟩⟩ | ⟨-, hd⟩⟩
    · exact .inl hd
    · exact .inr ⟨hdir, hplain, by simp [hd, plain_none], .inr ⟨c, by simp [hd]⟩⟩
    · exact .inr ⟨hdir, hplain, hb ▸ plain_file c, hs⟩
    · exact .inr ⟨hdir, hplain, by simp [hd, plain_none], .inr ⟨_, by simp [hd]; rfl⟩⟩

/-- **A source that is in order is left as it is**, whatever the mode and the faults. -/
theorem turn_of_settled (p : Patcher) (path : Path) (hc : isCompliant c) :
    (p.turn path ⟨some (.file c), none⟩).desk = ⟨some (.file c), none⟩ ∧
      (p.store.strikes .pending path = false → (p.turn path ⟨some (.file c), none⟩).result =
        .ok ⟨path, .alreadyCompliant, false⟩) := by
  cases hs : p.store.strikes .pending path <;>
    simp [Patcher.turn, Turn.bind, BackupStore.pendingTurn, hs, Tree.contentOf,
      Patcher.reconcileTurn, Except.mapError, Patcher.settleTurn, hc]

/-- **A turn without faults succeeds** on files and free places. -/
theorem turn_of_no_fault (path : Path) (hm : p.mode = .apply)
    (hf : ∀ point, p.store.strikes point path = false)
    (hc : d.counted = some c) (hdir : d.source ≠ some .dir) (hb : Plain d.backup) :
    (p.turn path d).result =
        .ok ⟨path, if isCompliant c then .alreadyCompliant else .patched, d.backup.isSome⟩ ∧
      (p.turn path d).desk = ⟨some (.file (p.fixed c)), none⟩ := by
  obtain ⟨source, backup⟩ := d
  -- Once the content stands in the source without a backup, no fault keeps it from being fixed.
  have hsettle : (p.settleTurn path c ⟨some (.file c), none⟩).result =
      .ok (if isCompliant c then .alreadyCompliant else .patched) ∧
      (p.settleTurn path c ⟨some (.file c), none⟩).desk = ⟨some (.file (p.fixed c)), none⟩ := by
    cases hcomp : isCompliant c <;>
      simp [Patcher.settleTurn, Patcher.fixed, hcomp, hm, Turn.bind, Patcher.declareTurn, writeTurn,
        BackupStore.storeTurn, BackupStore.discardTurn, hf]
  rcases hb with rfl | ⟨saved, rfl⟩
  · obtain rfl : source = some (.file c) := by
      rcases source with _ | ⟨_ | _ | _⟩ <;> simp_all [Desk.counted]
    simp [Patcher.turn, Turn.bind, BackupStore.pendingTurn, hf, Tree.contentOf,
      Patcher.reconcileTurn, Except.mapError, hsettle]
  · obtain rfl : saved = c := by simpa [Desk.counted] using hc
    simp [Patcher.turn, Turn.bind, BackupStore.pendingTurn, hf, Tree.contentOf,
      Patcher.reconcileTurn, hm, Patcher.restoreTurn, writeTurn, hdir, BackupStore.discardTurn,
      hsettle]

/-- **A turn without faults that only inspects** says what it finds in the content that counts. -/
theorem turn_of_check_of_no_fault (path : Path) (hm : p.mode = .check)
    (hf : p.store.strikes .pending path = false) (hc : d.counted = some c) (hb : Plain d.backup) :
    (p.turn path d).result =
      .ok ⟨path, if isCompliant c then .alreadyCompliant else .wouldPatch, d.backup.isSome⟩ := by
  rcases (turn_of_check path d hm).2 with ⟨e, he⟩ | ⟨c', hc', hr⟩
  · exfalso
    obtain ⟨source, backup⟩ := d
    rcases hb with rfl | ⟨saved, rfl⟩
    · obtain rfl : source = some (.file c) := by
        rcases source with _ | ⟨_ | _ | _⟩ <;> simp_all [Desk.counted]
      cases hcomp : isCompliant c <;>
        simp [Patcher.turn, Turn.bind, BackupStore.pendingTurn, hf, Tree.contentOf,
          Patcher.reconcileTurn, Except.mapError, Patcher.settleTurn, hm, hcomp] at he
    · cases hcomp : isCompliant saved <;>
        simp [Patcher.turn, Turn.bind, BackupStore.pendingTurn, hf, Tree.contentOf,
          Patcher.reconcileTurn, Patcher.settleTurn, hm, hcomp] at he
  · obtain rfl := Option.some.inj (hc.symm.trans hc')
    exact hr

/-- A backup that is no file stops a turn at once. -/
theorem turn_of_refused {e : SystemError} (path : Path)
    (hf : p.store.strikes .pending path = false) (he : Tree.contentOf d.backup = .error e)
    (hne : e ≠ .notFound) :
    (p.turn path d).result = .error (.read (p.store.backupPath path) e) ∧
      (p.turn path d).desk = d := by
  have hp : (p.store.pendingTurn path d).result = .error (.read (p.store.backupPath path) e) := by
    simp only [BackupStore.pendingTurn, hf, he, Bool.false_eq_true, if_false]
  rw [Patcher.turn, Turn.bind_of_error hp]
  exact ⟨rfl, rfl⟩

end

end SourceCoding
