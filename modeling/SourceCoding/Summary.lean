import SourceCoding.Path

/-!
# Outcomes

What happened to one source, and what a whole pass amounts to.

## Main definitions

* `Mode`: whether sources may be changed
* `Action`, `Outcome`: what happened to one source
* `Summary`: what happened in a pass
* `Summary.record`, `Summary.recordFailure`: one source more
* `Summary.isSuccess`: nothing failed and nothing is left to do
-/

namespace SourceCoding

/-- **Whether sources may be changed.** -/
inductive Mode where
  /-- Backups are restored and declarations inserted. -/
  | apply
  /-- Sources are only inspected; backups are reported and left where they are. -/
  | check
  deriving DecidableEq, Repr

/-- **What happened to a source.** -/
inductive Action where
  /-- It declares its encoding. -/
  | alreadyCompliant
  /-- A declaration was inserted. -/
  | patched
  /-- A declaration is missing, and sources may not be changed. -/
  | wouldPatch
  deriving DecidableEq, Repr

/-- The action as messages show it. -/
def Action.display : Action → String
  | .alreadyCompliant => "already-compliant"
  | .patched => "patched"
  | .wouldPatch => "would-patch"

/-- **The outcome for one source.** -/
structure Outcome where
  /-- The source. -/
  path : Path
  /-- What happened to it. -/
  action : Action
  /-- A backup from an interrupted pass was there. -/
  hadBackup : Bool
  deriving DecidableEq, Repr

/-- A source that could not be processed, with the text of the failure. -/
structure SkippedSource where
  /-- The source. -/
  path : Path
  /-- The text of the failure. -/
  error : String
  deriving DecidableEq, Repr

/-- **What happened in a pass**; every list is in the order of the sources. -/
structure Summary where
  /-- The directory, as it was given. -/
  root : Path
  /-- Sources were only inspected. -/
  checkOnly : Bool
  /-- The number of sources. -/
  filesScanned : Nat := 0
  /-- The number of sources that declared their encoding. -/
  alreadyCompliant : Nat := 0
  /-- Sources that got a declaration. -/
  patched : List Path := []
  /-- Sources without a declaration that were only inspected. -/
  nonCompliant : List Path := []
  /-- Sources that were restored from a backup. -/
  recovered : List Path := []
  /-- Sources with a backup that was left where it is. -/
  pendingBackups : List Path := []
  /-- Sources that could not be processed. -/
  failures : List SkippedSource := []
  deriving DecidableEq, Repr

namespace Summary

/-- The summary with the action on one more source. -/
def recordAction (s : Summary) (path : Path) : Action → Summary
  | .alreadyCompliant => { s with alreadyCompliant := s.alreadyCompliant + 1 }
  | .patched => { s with patched := s.patched ++ [path] }
  | .wouldPatch => { s with nonCompliant := s.nonCompliant ++ [path] }

/-- The summary with the backup of one more source. -/
def recordBackup (s : Summary) (path : Path) : Summary :=
  if s.checkOnly then { s with pendingBackups := s.pendingBackups ++ [path] }
  else { s with recovered := s.recovered ++ [path] }

/-- **The summary with one more outcome.** -/
def record (s : Summary) (o : Outcome) : Summary :=
  (if o.hadBackup then s.recordBackup o.path else s).recordAction o.path o.action

/-- **The summary with one more source that failed.** -/
def recordFailure (s : Summary) (path : Path) (error : String) : Summary :=
  { s with failures := s.failures ++ [⟨path, error⟩] }

/-- **Nothing failed and nothing is left to do.** -/
def isSuccess (s : Summary) : Bool := s.failures.isEmpty && s.nonCompliant.isEmpty

end Summary

end SourceCoding
