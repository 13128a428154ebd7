import SourceCoding.Collection
import SourceCoding.Patch

/-!
# Passes

A pass collects the sources below a directory and patches them one by one, in the order of the
collection. A source that fails ends the pass if the configuration says so; otherwise it is put on
record and the next one follows.

## Main definitions

* `Pass`: a configuration, a mode and the faults of the store of backups
* `Pass.step`: one source more
* `Pass.run`: the whole pass
-/

namespace SourceCoding

/-- **A pass to be made.** -/
structure Pass where
  /-- The settings. -/
  config : Config
  /-- Whether sources may be changed. -/
  mode : Mode
  /-- The faults of the store of backups. -/
  faults : List Fault := []

namespace Pass

variable (p : Pass)

/-- How the pass treats one source. -/
def patcher : Patcher := .ofConfig p.config p.mode p.faults

/-- **One source more.** -/
def step (summary : Summary) (path : Path) : Act Abort Summary := do
  match ← Act.attempt (p.patcher.patch path) with
  | .ok outcome =>
    emit (.processed path outcome.action)
    pure (summary.record outcome)
  | .error failure =>
    -- what the source has been put through stays as it is; the next pass takes it up
    if p.config.failFast then throw (.processing path failure)
    emit (.skipped path failure.message)
    pure (summary.recordFailure path failure.message)

/-- The summary before the first source. -/
def blank (root : Path) (files : List Path) : Summary :=
  { root, checkOnly := p.mode = .check, filesScanned := files.length }

/-- **The whole pass** below a directory. -/
def run (root : Path) : Act Abort Summary := do
  let files ← match ← Act.attempt (collect p.config root) with
    | .ok files => pure files
    | .error failure => throw (.collecting root failure)
  emit (.passStarted root files.length (p.mode = .check))
  let summary ← files.foldlM p.step (p.blank root files)
  emit (.passFinished summary)
  pure summary

end Pass

end SourceCoding
