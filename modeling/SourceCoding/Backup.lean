import SourceCoding.Failure
import SourceCoding.Session

/-!
# Backups

While a source is overwritten, a copy of it stands beside it under the name of the source with a
suffix. A copy found at the start of a pass means that an earlier pass was interrupted before it
had finished the source.

A store can be given faults: points at which a call for a certain source fails, so that the
conduct of a pass after a failure can be studied.

## Main definitions

* `BackupStore`: the suffix of backups and the faults
* `BackupStore.pending`, `BackupStore.store`, `BackupStore.discard`: the calls
-/

namespace SourceCoding

/-- Where a fault strikes. -/
inductive FaultPoint where
  /-- The backup cannot be read. -/
  | pending
  /-- The backup cannot be made. -/
  | store
  /-- The backup cannot be removed. -/
  | discard
  /-- After the backup is made a directory takes the place of the source, so that the source cannot
  be written. -/
  | commit
  deriving DecidableEq, Repr

/-- **A fault**: where it strikes and for which source. -/
structure Fault where
  /-- Where it strikes. -/
  point : FaultPoint
  /-- The source for which it strikes. -/
  target : Path
  deriving DecidableEq, Repr

/-- **A store of backups**, each beside its source. -/
structure BackupStore where
  /-- What follows the name of a source in the name of its backup. -/
  suffix : Bytes
  /-- The faults. -/
  faults : List Fault := []
  deriving DecidableEq, Repr

namespace BackupStore

/-- The store of a configuration. -/
def ofConfig (c : Config) (faults : List Fault := []) : BackupStore :=
  ⟨Bytes.ofString c.backupSuffix, faults⟩

/-- The path of the backup of a source. -/
def backupPath (b : BackupStore) (target : Path) : Path := target.append b.suffix

/-- A fault strikes at a point for a source. -/
def strikes (b : BackupStore) (point : FaultPoint) (target : Path) : Bool :=
  b.faults.contains ⟨point, target⟩

/-- **The backup of a source**, if there is one. -/
def pending (b : BackupStore) (target : Path) : Act Failure (Option Bytes) := do
  emit (.storeCalled .pending target)
  let path := b.backupPath target
  if b.strikes .pending target then throw (.read path (.other "backup unreadable"))
  let s ← get
  match s.tree.read s.cwd path with
  | .ok content => pure (some content)
  | .error .notFound => pure none
  | .error e => throw (.read path e)

/-- The source is replaced by an empty directory, as far as that is possible. -/
def obstruct (target : Path) : Act Failure Unit := do
  let _ ← Act.attempt (Act.change (.remove target) id)
  let _ ← Act.attempt (Act.change (.makeDirectory target) id)
  pure ()

/-- **A backup made** of a content for a source. -/
def store (b : BackupStore) (target : Path) (content : Bytes) : Act Failure Unit := do
  emit (.storeCalled (.store content) target)
  let path := b.backupPath target
  if b.strikes .store target then throw (.write path (.other "disk full"))
  Act.change (.write path content) (.write path)
  if b.strikes .commit target then obstruct target

/-- **The backup of a source removed**; that there is none is no failure. -/
def discard (b : BackupStore) (target : Path) : Act Failure Unit := do
  emit (.storeCalled .discard target)
  let path := b.backupPath target
  if b.strikes .discard target then throw (.cleanup path (.other "device busy"))
  match ← Act.attempt (Act.change (.remove path) id) with
  | .ok () | .error .notFound => pure ()
  | .error e => throw (.cleanup path e)

end BackupStore

end SourceCoding
