import SourceCoding.Config
import SourceCoding.Console
import SourceCoding.Summary
import SourceCoding.Tree.Access

/-!
# Events

Everything a command shows while it works is told by events, in the order in which they happen:
status lines on standard output, lines on standard error, log records, the calls on the store of
backups, and what is done to files. What is printed, what is logged and what is done are readings of
one list of events.

## Main definitions

* `Event`: what can happen
* `Event.printed`: what an event prints on standard output
* `Event.warned`: what an event prints on standard error whatever the log level
* `recoveredPaths`, `storeCalls`, `operations`: views of a list of events
-/

namespace SourceCoding

/-- The calls on the store of backups. -/
inductive StoreCall where
  /-- Is there a backup? -/
  | pending
  /-- Make a backup of a content. -/
  | store (content : Bytes)
  /-- Remove the backup. -/
  | discard
  deriving DecidableEq, Repr

/-- The name of a call. -/
def StoreCall.name : StoreCall → String
  | .pending => "pending"
  | .store _ => "store"
  | .discard => "discard"

/-- The outcome of a self-test: the scenarios that passed, and those that failed with a text. -/
structure SelfTestReport where
  /-- The names of the scenarios that passed. -/
  passed : List String := []
  /-- The names of the scenarios that failed, each with what went wrong. -/
  failed : List (String × String) := []
  deriving DecidableEq, Repr

/-- The number of scenarios. -/
def SelfTestReport.total (r : SelfTestReport) : Nat := r.passed.length + r.failed.length

/-- No scenario failed. -/
def SelfTestReport.isSuccess (r : SelfTestReport) : Bool := r.failed.isEmpty

/-- **What can happen.** -/
inductive Event where
  /-- The configuration is settled. -/
  | configResolved (config : Config)
  /-- A directory was passed over with all beneath it. -/
  | directorySkipped (path : Path)
  /-- A source was found. -/
  | collected (path : Path)
  /-- All sources have been found. -/
  | collectionFinished (root : Path) (count : Nat)
  /-- A pass begins. -/
  | passStarted (root : Path) (files : Nat) (checkOnly : Bool)
  /-- An operation was carried out. -/
  | changed (operation : Operation)
  /-- A call on the store of backups. -/
  | storeCalled (call : StoreCall) (target : Path)
  /-- A source has a backup from an interrupted pass. -/
  | backupFound (path : Path)
  /-- The source is about to be restored from its backup. -/
  | restoring (path : Path)
  /-- The source is restored and its backup is gone. -/
  | recovered (path : Path)
  /-- The backup was left where it is, since sources may not be changed. -/
  | backupLeft (path : Path)
  /-- The source declares its encoding. -/
  | foundCompliant (path : Path)
  /-- The declaration was inserted. -/
  | inserted (path : Path)
  /-- A source was processed. -/
  | processed (path : Path) (action : Action)
  /-- A source could not be processed. -/
  | skipped (path : Path) (error : String)
  /-- A pass ended with a summary. -/
  | passFinished (summary : Summary)
  /-- A report of the pass. -/
  | reported (text : String)
  /-- Without a report: a source lacks a declaration. -/
  | declarationMissing (path : Path)
  /-- Without a report: a source has a backup that was left where it is. -/
  | backupPending (path : Path)
  /-- Without a report: some sources could not be processed. -/
  | sourcesSkipped (count : Nat)
  /-- A scenario of the self-test failed. -/
  | scenarioFailed (scenario : String) (error : String)
  /-- The self-test ended. -/
  | selfTested (report : SelfTestReport)
  /-- No directory was given. -/
  | directoryMissing
  deriving DecidableEq, Repr

/-- What is said when no directory was given. -/
def missingDirectoryWarning : String :=
  "Warning: no absolute directory path given, only the self-test was run."

namespace Event

/-- The sign before a warning. -/
def warningSign (styled : Bool) : String := Style.yellow.paint styled "⚠️ "

/-- **What an event prints** on standard output. -/
def printed (styled : Bool) : Event → String
  | .backupFound path => "ℹ️  Backup file found for " ++ path.display ++ "\n"
  | .restoring path => "ℹ️  Restoring " ++ path.display ++ " from its backup\n"
  | .recovered path => "✓ Recovered " ++ path.display ++ "\n"
  | .reported text => if text.toList.getLast? = some '\n' then text else text ++ "\n"
  | .declarationMissing path => "🟡 Missing encoding declaration: " ++ path.display ++ "\n"
  | .backupPending path => "⏸️  Backup left in place (check mode): " ++ path.display ++ "\n"
  | .sourcesSkipped count =>
    warningSign styled ++ " " ++ toString count ++ " file(s) could not be processed\n"
  | .selfTested report =>
    (if report.isSuccess then Style.green.paint styled "✓" else warningSign styled) ++
      " Self-test: " ++ toString report.passed.length ++ "/" ++ toString report.total ++
      " scenarios passed\n"
  | .directoryMissing => missingDirectoryWarning ++ "\n"
  | _ => ""

/-- **What an event prints on standard error** whatever the log level. -/
def warned (styled : Bool) : Event → String
  | .selfTested report =>
    String.join (report.failed.map fun (name, error) =>
      "  ✗ " ++ name ++ ": " ++ Style.red.paint styled error ++ "\n")
  | _ => ""

/-- The source that is announced as recovered. -/
def recoveredPath? : Event → Option Path
  | .recovered path => some path
  | _ => none

/-- The call on the store of backups. -/
def storeCall? : Event → Option (StoreCall × Path)
  | .storeCalled call target => some (call, target)
  | _ => none

/-- The operation that was carried out. -/
def operation? : Event → Option Operation
  | .changed operation => some operation
  | _ => none

end Event

/-- All that a list of events prints on standard output. -/
def printedText (styled : Bool) (events : List Event) : String :=
  String.join (events.map (Event.printed styled))

/-- All that a list of events prints on standard error whatever the log level. -/
def warnedText (styled : Bool) (events : List Event) : String :=
  String.join (events.map (Event.warned styled))

/-- The sources that are announced as recovered, in order. -/
def recoveredPaths (events : List Event) : List Path := events.filterMap Event.recoveredPath?

/-- The calls on the store of backups, in order. -/
def storeCalls (events : List Event) : List (StoreCall × Path) :=
  events.filterMap Event.storeCall?

/-- What was done to files, in order. -/
def operations (events : List Event) : List Operation := events.filterMap Event.operation?

end SourceCoding
