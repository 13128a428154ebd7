import SourceCoding.Backup
import SourceCoding.Declaration

/-!
# Patching one source

A source gets its declaration in three steps: a backup is made, the source is overwritten, the
backup is removed. A backup that is there at the start is taken for the true content: the source
is restored from it, or, where sources may not be changed, it is inspected in place of the source.

## Main definitions

* `Patcher`: what patching needs to know
* `Patcher.restore`, `Patcher.declare`: the two sequences of writes
* `Patcher.patch`: the whole treatment of one source
* `compliant`: whether a source on disk declares its encoding
-/

namespace SourceCoding

/-- The content of a source, or the failure to read it. -/
def readSource (path : Path) : Act Failure Bytes :=
  Act.query (fun t cwd => t.read cwd path) (.read path)

/-- A source written, or the failure to write it. -/
def writeSource (path : Path) (content : Bytes) : Act Failure Unit :=
  Act.change (.write path content) (.write path)

/-- Whether a source on disk declares its encoding. -/
def compliant (path : Path) : Act Failure Bool := isCompliant <$> readSource path

/-- **What patching needs to know.** -/
structure Patcher where
  /-- The line that is inserted. -/
  declaration : Bytes
  /-- Where backups are kept. -/
  store : BackupStore
  /-- Whether sources may be changed. -/
  mode : Mode

namespace Patcher

/-- The patcher of a configuration. -/
def ofConfig (c : Config) (mode : Mode) (faults : List Fault := []) : Patcher :=
  ⟨c.declaration, .ofConfig c faults, mode⟩

variable (p : Patcher)

/-- A source restored from the content of its backup. -/
def restore (path : Path) (saved : Bytes) : Act Failure Unit := do
  emit (.restoring path)
  writeSource path saved
  p.store.discard path
  emit (.recovered path)

/-- A source overwritten with its content and the declaration in it. The backup is complete before
the first byte of the source is touched, and it goes only when the last one is written. -/
def declare (path : Path) (content : Bytes) : Act Failure Unit := do
  p.store.store path content
  writeSource path (insertDeclaration p.declaration content)
  p.store.discard path
  emit (.inserted path)

/-- The content of a source that counts, once a backup has been dealt with. -/
def reconcile (path : Path) : Option Bytes → Act Failure Bytes
  | none => readSource path
  | some saved => do
    emit (.backupFound path)
    -- what counts is the backup in either mode, so a check says what a pass would do
    match p.mode with
    | .apply => p.restore path saved
    | .check => emit (.backupLeft path)
    pure saved

/-- What is done about a content. -/
def settle (path : Path) (content : Bytes) : Act Failure Action :=
  if isCompliant content then do
    emit (.foundCompliant path)
    pure .alreadyCompliant
  else match p.mode with
    | .check => pure .wouldPatch
    | .apply => do
      p.declare path content
      pure .patched

/-- **The whole treatment of one source.** -/
def patch (path : Path) : Act Failure Outcome := do
  let backup ← p.store.pending path
  let content ← p.reconcile path backup
  let action ← p.settle path content
  pure ⟨path, action, backup.isSome⟩

end Patcher

end SourceCoding
