import SourceCoding.Path
import SourceCoding.Tree.SystemError

/-!
# Failures

What stops the work on a source, on a directory or on a whole command, with the texts that are
shown. A failure is shown as a chain: what was attempted first, its causes after it.

## Main definitions

* `Failure`: a failure of one operation
* `Abort`: a failure with the activity it ended
* `Failure.chain`, `Abort.chain`: the texts, from the outermost inwards
-/

namespace SourceCoding

/-- **A failure of one operation**, with its path and its cause. -/
inductive Failure where
  /-- The directory to fix is not given by an absolute path. -/
  | relative (path : Path)
  /-- A source or a backup could not be read. -/
  | read (path : Path) (cause : SystemError)
  /-- A source or a backup could not be written. -/
  | write (path : Path) (cause : SystemError)
  /-- A backup that is no longer needed could not be removed. -/
  | cleanup (path : Path) (cause : SystemError)
  /-- The directory could not be walked. -/
  | walk (path : Path) (cause : SystemError)
  /-- The configuration has issues. -/
  | config (issues : List String)
  deriving DecidableEq, Repr

namespace Failure

/-- What the walk says about the entry it could not visit. -/
def walkMessage (path : Path) (cause : SystemError) : String :=
  "IO error for operation on " ++ path.display ++ ": " ++ cause.message

/-- The text of a failure; it ends in the text of its cause. -/
def message : Failure → String
  | .relative path => "path must be absolute: " ++ path.display
  | .read path cause => "failed to read " ++ path.display ++ ": " ++ cause.message
  | .write path cause => "failed to write " ++ path.display ++ ": " ++ cause.message
  | .cleanup path cause => "failed to remove backup " ++ path.display ++ ": " ++ cause.message
  | .walk path cause => "failed to walk directory tree: " ++ walkMessage path cause
  | .config issues => "invalid configuration: " ++ "; ".intercalate issues

/-- The causes of a failure, from the outermost inwards. -/
def causes : Failure → List String
  | .relative _ | .config _ => []
  | .read _ cause | .write _ cause | .cleanup _ cause => [cause.message]
  | .walk path cause => [walkMessage path cause, cause.message]

/-- The texts of a failure and its causes. -/
def chain (f : Failure) : List String := f.message :: f.causes

end Failure

/-- The structured forms of a report. -/
inductive DataFormat where
  /-- An indented JSON object. -/
  | json
  /-- A YAML mapping. -/
  | yaml
  /-- A TOML document. -/
  | toml
  deriving DecidableEq, Repr

/-- The name of the format. -/
def DataFormat.name : DataFormat → String
  | .json => "JSON"
  | .yaml => "YAML"
  | .toml => "TOML"

/-- **A failure with the activity it ended.** -/
inductive Abort where
  /-- A failure by itself. -/
  | plain (failure : Failure)
  /-- The sources below a directory were being collected. -/
  | collecting (root : Path) (failure : Failure)
  /-- A source was being processed. -/
  | processing (path : Path) (failure : Failure)
  /-- The configuration file could not be read. -/
  | configUnreadable (path : Path) (cause : SystemError)
  /-- The configuration file is no TOML document with the right settings. -/
  | configMalformed (path : Path)
  /-- The report has a path that is not text. -/
  | unrenderable (format : DataFormat)
  deriving DecidableEq, Repr

namespace Abort

/-- **The texts**, from the outermost inwards. -/
def chain : Abort → List String
  | .plain failure => failure.chain
  | .collecting root failure =>
    ("Failed to collect source files under " ++ root.display) :: failure.chain
  | .processing path failure => ("Failed to process " ++ path.display) :: failure.chain
  | .configUnreadable path cause =>
    ["Failed to read config file " ++ path.display, cause.message]
  | .configMalformed path => ["Failed to parse config file " ++ path.display]
  | .unrenderable format =>
    ["Failed to serialize to " ++ format.name, "path contains invalid UTF-8 characters"]

/-- The outermost text. -/
def message (a : Abort) : String := a.chain.headD ""

end Abort

end SourceCoding
