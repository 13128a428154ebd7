import SourceCoding.Event
import SourceCoding.Text.Quoted

/-!
# Log records

Events are also told in a log, one record a line. A record has a level, the part of the program it
comes from, a message and fields with values. Which records are shown is for a filter to say.

## Main definitions

* `Level`: how much a record matters
* `LogSource`: the part of the program a record comes from
* `LogRecord`, `LogRecord.line`: a record and its line
* `Event.logRecord?`: the record of an event
-/

namespace SourceCoding

/-- **How much a record matters**, from what must be seen to what only a search needs. -/
inductive Level where
  /-- Something could not be done. -/
  | error
  /-- Something needs attention. -/
  | warn
  /-- A step of the work. -/
  | info
  /-- A detail of a step. -/
  | debug
  /-- A detail of a detail. -/
  | trace
  deriving DecidableEq, Repr

namespace Level

/-- The place of a level in the order, the most important one first. -/
def rank : Level → Nat
  | .error => 1
  | .warn => 2
  | .info => 3
  | .debug => 4
  | .trace => 5

/-- The level as a line shows it, in five columns. -/
def label : Level → String
  | .error => "ERROR"
  | .warn => " WARN"
  | .info => " INFO"
  | .debug => "DEBUG"
  | .trace => "TRACE"

end Level

/-- **The part of the program a record comes from.** -/
inductive LogSource where
  /-- The settings. -/
  | config
  /-- The search for sources. -/
  | collection
  /-- The treatment of one source. -/
  | patch
  /-- The pass over all sources. -/
  | pass
  /-- The self-test. -/
  | selfTest
  deriving DecidableEq, Repr

/-- The name by which a filter refers to a part of the program. -/
def LogSource.target : LogSource → String
  | .config => "pep263_fixer::core::config"
  | .collection => "pep263_fixer::builders::collector"
  | .patch => "pep263_fixer::builders::patcher"
  | .pass => "pep263_fixer::core::engine"
  | .selfTest => "pep263_fixer::builders::selftest"

/-- **A record.** -/
structure LogRecord where
  /-- How much it matters. -/
  level : Level
  /-- Where it comes from. -/
  source : LogSource
  /-- What it says. -/
  message : String
  /-- Names with values, in the order of the line. -/
  fields : List (String × String)
  deriving DecidableEq, Repr

namespace LogRecord

/-- **The line of a record.** -/
def line (r : LogRecord) : String :=
  " ".intercalate (r.level.label :: r.message ::
    r.fields.map fun (name, value) => name ++ "=" ++ value) ++ "\n"

/-- The record has a field of that name; the message is a field too. -/
def hasField (r : LogRecord) (name : String) : Bool :=
  name == "message" || r.fields.any fun field => field.1 == name

end LogRecord

/-- A truth value as a field shows it. -/
def flagText (b : Bool) : String := if b then "true" else "false"

/-- The settings as a field shows them. -/
def Config.fieldText (c : Config) : String :=
  "FixerConfig \x7b coding: " ++ quote c.coding ++ ", extension: " ++ quote c.extension ++
    ", excluded_dir: " ++ quote c.excludedDir ++ ", backup_suffix: " ++ quote c.backupSuffix ++
    ", fail_fast: " ++ flagText c.failFast ++ " \x7d"

/-- The numbers of a summary as fields. -/
def Summary.countFields (s : Summary) : List (String × String) := [
  ("patched", toString s.patched.length),
  ("non_compliant", toString s.nonCompliant.length),
  ("recovered", toString s.recovered.length),
  ("pending_backups", toString s.pendingBackups.length),
  ("failures", toString s.failures.length)]

/-- **The record of an event**; some events are for the console only. -/
def Event.logRecord? : Event → Option LogRecord
  | .configResolved c =>
    some ⟨.debug, .config, "resolved configuration", [("config", c.fieldText)]⟩
  | .directorySkipped path =>
    some ⟨.debug, .collection, "skipping excluded directory", [("path", path.display)]⟩
  | .collected path => some ⟨.trace, .collection, "collected", [("path", path.display)]⟩
  | .collectionFinished root count => some ⟨.debug, .collection, "collection finished",
      [("root", root.display), ("count", toString count)]⟩
  | .passStarted root files checkOnly => some ⟨.info, .pass, "starting pass",
      [("root", root.display), ("files", toString files), ("check_only", flagText checkOnly)]⟩
  | .recovered path => some ⟨.info, .patch, "recovered from backup", [("path", path.display)]⟩
  | .backupLeft path => some ⟨.warn, .patch, "leftover backup not restored in check-only mode",
      [("path", path.display)]⟩
  | .foundCompliant path => some ⟨.debug, .patch, "already compliant", [("path", path.display)]⟩
  | .inserted path =>
    some ⟨.info, .patch, "inserted encoding declaration", [("path", path.display)]⟩
  | .processed path action => some ⟨.debug, .pass, "processed",
      [("path", path.display), ("action", action.display)]⟩
  | .skipped path error => some ⟨.error, .pass, "skipping file",
      [("path", path.display), ("error", error)]⟩
  | .passFinished summary => some ⟨.info, .pass, "pass finished", summary.countFields⟩
  | .scenarioFailed scenario error => some ⟨.warn, .selfTest, "self-test failed",
      [("scenario", quote scenario), ("error", error)]⟩
  | .changed _ | .storeCalled .. | .backupFound _ | .restoring _ | .reported _
  | .declarationMissing _ | .backupPending _ | .sourcesSkipped _ | .selfTested _
  | .directoryMissing => none

end SourceCoding
