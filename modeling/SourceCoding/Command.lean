import SourceCoding.Command.Arguments
import SourceCoding.Config.Load
import SourceCoding.Log.Filter
import SourceCoding.SelfTest

/-!
# The command

A command resolves its configuration, tests itself, and fixes the directory it is given. Its exit
status is 0 if nothing failed and nothing is left to do, 2 if the command line is wrong, 101 if the
log filter cannot be read, and 1 otherwise. The pass over the directory is followed by a report, or,
where none is asked for, by notices about what is left to do.

## Main definitions

* `Pass.fix`: a pass and what is shown of it
* `Invocation.perform`: the work of a command, as an action with an exit status
* `Surroundings`: what a command finds where it is run
* `Conclusion`: what a command leaves behind
* `Command.run`: a whole command
-/

namespace SourceCoding

/-! ## A pass and what is shown of it -/

/-- What is said about a summary without a report. -/
def Summary.notices (s : Summary) : List Event :=
  (if s.checkOnly then s.nonCompliant.map .declarationMissing else []) ++
  s.pendingBackups.map .backupPending ++
  (if s.failures = [] then [] else [.sourcesSkipped s.failures.length])

/-- **A pass over a directory and what is shown of it.** -/
def Pass.fix (p : Pass) (styled : Bool) (report : Option ReportFormat) (root : Path) :
    Act Abort Summary := do
  let summary ← p.run root
  match report with
  | none => emitAll summary.notices
  | some format => match summary.report styled format with
    | .ok text => emit (.reported text)
    | .error a => throw a
  pure summary

/-! ## The work of a command -/

namespace Invocation

/-- The settings that the command line has in place of those of the configuration file. -/
def overrides (i : Invocation) : Overrides := ⟨i.coding, i.failFast⟩

/-- Whether sources may be changed. -/
def mode (i : Invocation) : Mode := if i.check then .check else .apply

/-- The limit of the log where no filter is set. -/
def logLimit (i : Invocation) : Limit :=
  if i.verbose < i.quiet then some .error
  else match i.verbose - i.quiet with
    | 0 => some .warn
    | 1 => some .info
    | 2 => some .debug
    | _ => some .trace

/-- **The work of a command**, with its exit status. -/
def perform (i : Invocation) (scratch : Path) (styled : Bool) : Act Abort Nat := do
  let c ← Config.resolve i.configFile i.overrides
  if !i.skipSelfTest then
    -- a scenario that fails is reported and does not keep the pass from being made
    let _ ← selfTest scratch c
  match i.directory with
  | none =>
    emit .directoryMissing
    pure 0
  | some root =>
    let summary ← Pass.fix ⟨c, i.mode, []⟩ styled i.report root
    pure (if summary.isSuccess then 0 else 1)

end Invocation

/-! ## Texts -/

/-- The text of `--version`. -/
def versionText : String := "pep263-fixer 0.0.1\n"

/-- The text of `--help`. -/
def helpText : String := "\n".intercalate [
  "Ensure Python sources declare their encoding (PEP-0263)",
  "",
  "Usage: pep263-fixer [OPTIONS] [DIR]",
  "",
  "Arguments:",
  "  [DIR]  Absolute path of the directory tree to fix",
  "",
  "Options:",
  "      --coding <NAME>    Encoding name written into inserted declarations",
  "      --config <FILE>    TOML configuration file",
  "      --check            Only report files missing a declaration; exit 1 if any are found",
  "      --fail-fast        Abort the pass on the first file that cannot be processed",
  "      --report <FORMAT>  Print a run summary in the given format " ++
    "[possible values: console, json, yaml, toml]",
  "      --skip-self-test   Do not run the built-in self-test before the pass",
  "  -v...                  Increase log verbosity (-v, -vv)",
  "  -q...                  Decrease log verbosity",
  "  -h, --help             Print help",
  "  -V, --version          Print version",
  ""]

/-- A text whose lines after the first are indented. -/
def indentRest (indent : String) (text : String) : String :=
  String.ofList (text.toList.flatMap fun c => if c = '\n' then '\n' :: indent.toList else [c])

/-- The causes of a failure, numbered if there are several. -/
def causeLines (causes : List String) : List String :=
  match causes with
  | [cause] => ["    " ++ indentRest "    " cause]
  | _ => causes.zipIdx.map fun (cause, n) =>
    "    " ++ toString n ++ ": " ++ indentRest "       " cause

/-- **What a command says about the failure that ended it.** -/
def Abort.complaint (a : Abort) : String :=
  match a.chain.drop 1 with
  | [] => "Error: " ++ a.message ++ "\n"
  | causes => "Error: " ++ a.message ++ "\n\nCaused by:\n" ++
    String.join ((causeLines causes).map (· ++ "\n"))

/-! ## The whole command -/

/-- **What a command finds where it is run.** -/
structure Surroundings where
  /-- The files. -/
  tree : Tree
  /-- The working directory. -/
  cwd : Location
  /-- A path for the scratch directories of the self-test. -/
  scratch : Path
  /-- Console text is styled. -/
  styled : Bool := false
  /-- The written log filter. -/
  logFilter : String := ""

/-- **What a command leaves behind.** -/
structure Conclusion where
  /-- The exit status. -/
  status : Nat
  /-- The text on standard output. -/
  output : String
  /-- The log and the warnings on standard error. -/
  log : String
  /-- The text on standard error for what ended the command early. -/
  complaint : String
  /-- The files. -/
  tree : Tree
  /-- What was done to them, in order. -/
  operations : List Operation

namespace Command

/-- The conclusion of a command that came to no work. -/
def stopped (s : Surroundings) : Stop → Conclusion
  | .help => ⟨0, helpText, "", "", s.tree, []⟩
  | .version => ⟨0, versionText, "", "", s.tree, []⟩
  | .misuse error => ⟨2, "", "", "error: " ++ error.message ++ "\n", s.tree, []⟩

/-- The conclusion of a command whose log filter cannot be read. -/
def unfiltered (s : Surroundings) (split : SplitCharacter) : Conclusion :=
  ⟨101, "", LogFilter.complaints s.logFilter ++ split.message ++ "\n", "", s.tree, []⟩

/-- The conclusion of a command that came to its work. -/
def worked (s : Surroundings) (i : Invocation) (filter : LogFilter) : Conclusion :=
  let (result, after) := (i.perform s.scratch s.styled).runIn { tree := s.tree, cwd := s.cwd }
  { status := match result with
      | .ok status => status
      | .error _ => 1
    output := printedText s.styled after.events
    log := LogFilter.complaints s.logFilter ++ loggedText filter s.styled after.events
    complaint := match result with
      | .ok _ => ""
      | .error a => a.complaint
    tree := after.tree
    operations := operations after.events }

/-- **A whole command.** -/
def run (s : Surroundings) (words : List Bytes) : Conclusion :=
  match Invocation.read words with
  | .error stop => stopped s stop
  | .ok i => match LogFilter.read s.logFilter i.logLimit with
    | .error split => unfiltered s split
    | .ok filter => worked s i filter

end Command

end SourceCoding
