import SourceCoding.Config.Issue
import SourceCoding.Failure
import SourceCoding.Session
import SourceCoding.Toml.Reader

/-!
# Loading the configuration

The settings come from three places: the command line, a TOML file and the defaults, in this order
of precedence. What they amount to is checked as a whole.

## Main definitions

* `Config.ofFields?`: the settings of a TOML table
* `Overrides`: the settings of the command line
* `Config.load`: the settings before the check
* `Config.resolve`: the settings after it
-/

namespace SourceCoding

/-- A setting that is a text, or its default. -/
def textSetting? (fields : Toml.Fields) (key default : String) : Option String :=
  match fields.get? key with
  | none => some default
  | some (.text value) => some value
  | some _ => none

/-- A setting that is a truth value, or its default. -/
def flagSetting? (fields : Toml.Fields) (key : String) (default : Bool) : Option Bool :=
  match fields.get? key with
  | none => some default
  | some (.boolean value) => some value
  | some _ => none

/-- **The settings of a TOML table.** Keys that name no setting do not matter. -/
def Config.ofFields? (fields : Toml.Fields) : Option Config := do
  let d : Config := {}
  pure {
    coding := ← textSetting? fields "coding" d.coding
    extension := ← textSetting? fields "extension" d.extension
    excludedDir := ← textSetting? fields "excluded_dir" d.excludedDir
    backupSuffix := ← textSetting? fields "backup_suffix" d.backupSuffix
    failFast := ← flagSetting? fields "fail_fast" d.failFast }

/-- **The settings of the command line.** -/
structure Overrides where
  /-- The encoding, if it is given. -/
  coding : Option String := none
  /-- The first failure ends the pass. -/
  failFast : Bool := false
  deriving DecidableEq, Repr

/-- The settings with those of the command line in their place. -/
def Overrides.applyTo (o : Overrides) (c : Config) : Config :=
  { c with coding := o.coding.getD c.coding, failFast := o.failFast || c.failFast }

/-- The settings of a file. -/
def Config.readFrom (path : Path) : Act Abort Config := do
  let content ← Act.query (fun t cwd => t.read cwd path) (.configUnreadable path)
  match Utf8.decode? content with
  | none => throw (.configUnreadable path .notText)
  | some text => match (Toml.read text).bind Config.ofFields? with
    | none => throw (.configMalformed path)
    | some c => pure c

/-- **The settings before the check.** -/
def Config.load (file : Option Path) (o : Overrides) : Act Abort Config := do
  match file with
  | none => pure (o.applyTo {})
  | some path => o.applyTo <$> Config.readFrom path

/-- The failure of a configuration with issues. -/
def Config.failure (c : Config) : Failure := .config (c.issues.map Issue.message)

/-- **The settings after the check.** -/
def Config.resolve (file : Option Path) (o : Overrides) : Act Abort Config := do
  let c ← Config.load file o
  if c.issues ≠ [] then throw (.plain c.failure)
  emit (.configResolved c)
  pure c

end SourceCoding
