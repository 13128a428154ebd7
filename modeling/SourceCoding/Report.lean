import SourceCoding.Console
import SourceCoding.Failure
import SourceCoding.Summary
import SourceCoding.Toml.Written
import SourceCoding.Yaml.Scalar

/-!
# Reports

The summary of a pass is shown to a reader or written down for other programs.

For a reader the sources are named by what happened to them, the failures come with their texts, and
the counts are at the end; sections without sources are left out. For other programs the summary is
a record: named fields in a fixed order. A path goes into a record as text, so a summary with a path
that is not text has no record. A record has three written forms:

* a JSON object over several lines, indented by two spaces a level; an empty list stays on its line.
  Strings escape the quote, the backslash and the control characters;
* a YAML block mapping, where lists are block sequences at the indentation of their key and an empty
  list stays on its line;
* a TOML document with a line for each field. A list of two or more texts has a line for each of
  them, and every row of a list of rows is a table of its own after an empty line.

## Main definitions

* `Datum`, `Record`: the values of fields, and the fields
* `Summary.record?`: the record of a summary
* `Summary.consoleReport`: the report for a reader
* `Json.document`, `Yaml.document`, `Toml.document`: the written forms of a record
* `ReportFormat.ofName?`: a form by its name
* `Summary.report`: the report of a summary; only the structured ones can fail
-/

namespace SourceCoding

/-! ## The fields of a report -/

/-- **The value of a field.** -/
inductive Datum where
  /-- Yes or no. -/
  | flag (value : Bool)
  /-- A number. -/
  | count (value : Nat)
  /-- A text. -/
  | text (value : String)
  /-- A list of texts. -/
  | texts (values : List String)
  /-- A list of rows, each with its own named texts. -/
  | rows (values : List (List (String × String)))
  deriving DecidableEq, Repr

/-- **Named fields** in order. -/
abbrev Record := List (String × Datum)

/-- The row of a source that could not be processed. -/
def SkippedSource.row? (s : SkippedSource) : Option (List (String × String)) := do
  pure [("path", ← s.path.text?), ("error", s.error)]

/-- **The record of a summary** whose paths are text. -/
def Summary.record? (s : Summary) : Option Record := do
  let root ← s.root.text?
  let patched ← s.patched.mapM Path.text?
  let nonCompliant ← s.nonCompliant.mapM Path.text?
  let recovered ← s.recovered.mapM Path.text?
  let pendingBackups ← s.pendingBackups.mapM Path.text?
  let failures ← s.failures.mapM SkippedSource.row?
  pure [
    ("root", .text root),
    ("check_only", .flag s.checkOnly),
    ("files_scanned", .count s.filesScanned),
    ("already_compliant", .count s.alreadyCompliant),
    ("patched", .texts patched),
    ("non_compliant", .texts nonCompliant),
    ("recovered", .texts recovered),
    ("pending_backups", .texts pendingBackups),
    ("failures", .rows failures)]

/-! ## The report for a reader -/

namespace Summary

/-- The sources of one section, if there are any. -/
def pathSection (icon title : String) (paths : List Path) : String :=
  if paths = [] then ""
  else "\n" ++ icon ++ " " ++ title ++ ":\n" ++
    String.join (paths.map fun p => "  └─ " ++ p.display ++ "\n")

/-- The sources that could not be processed, if there are any. -/
def failureSection (styled : Bool) (failures : List SkippedSource) : String :=
  if failures = [] then ""
  else "\n🔴 Failed:\n" ++ String.join (failures.map fun f =>
    "  └─ " ++ f.path.display ++ ": " ++ Style.red.paint styled f.error ++ "\n")

/-- A line with a count. -/
def countLine (title : String) (n : Nat) : String := "  " ++ title ++ ": " ++ toString n ++ "\n"

/-- The counts; what could have been done is counted where sources may not be changed. -/
def counts (s : Summary) : String :=
  "\n📈 Summary:\n" ++ countLine "Files scanned" s.filesScanned ++
  countLine "Already compliant" s.alreadyCompliant ++
  (if s.checkOnly then
    countLine "Missing a declaration" s.nonCompliant.length ++
      countLine "Pending backups" s.pendingBackups.length
  else
    countLine "Patched" s.patched.length ++ countLine "Recovered" s.recovered.length) ++
  countLine "Failed" s.failures.length

/-- **The report of a summary** for a reader. -/
def consoleReport (styled : Bool) (s : Summary) : String :=
  Style.boldCyan.paint styled "📊 PEP-0263 Report" ++ "\n==================\n" ++
  "Root: " ++ s.root.display ++ "\n" ++
  pathSection "🟢" "Patched" s.patched ++
  pathSection "🟡" "Missing a declaration" s.nonCompliant ++
  pathSection "♻️ " "Recovered from backup" s.recovered ++
  pathSection "⏸️ " "Backup pending (not restored)" s.pendingBackups ++
  failureSection styled s.failures ++ counts s

end Summary

/-! ## Records as JSON -/

namespace Json

/-- A character between the quotes. -/
def escape (c : Char) : List Char :=
  if c = '"' then ['\\', '"']
  else if c = '\\' then ['\\', '\\']
  else if c = '\x08' then ['\\', 'b']
  else if c = '\t' then ['\\', 't']
  else if c = '\n' then ['\\', 'n']
  else if c = '\x0c' then ['\\', 'f']
  else if c = '\r' then ['\\', 'r']
  else if c.toNat < 0x20 then
    ['\\', 'u', '0', '0', Nat.digitChar (c.toNat / 16), Nat.digitChar (c.toNat % 16)]
  else [c]

/-- A text in quotes. -/
def string (s : String) : List Char := '"' :: (s.toList.flatMap escape ++ ['"'])

/-- The start of a line at a level of indentation. -/
def lineStart (level : Nat) : List Char := '\n' :: List.replicate (2 * level) ' '

/-- **Items between brackets**, one a line, at a level of indentation. -/
def block (opening closing : Char) (level : Nat) (items : List (List Char)) : List Char :=
  if items = [] then [opening, closing]
  else
    opening :: ([','].intercalate (items.map (lineStart (level + 1) ++ ·)) ++
      lineStart level ++ [closing])

/-- A named item. -/
def field (name : String) (value : List Char) : List Char := string name ++ [':', ' '] ++ value

/-- A row at a level of indentation. -/
def row (level : Nat) (r : List (String × String)) : List Char :=
  block '\x7b' '\x7d' level (r.map fun (name, value) => field name (string value))

/-- The value of a field of the record. -/
def datum : Datum → List Char
  | .flag value => (toString value).toList
  | .count value => Nat.toDigits 10 value
  | .text value => string value
  | .texts values => block '[' ']' 1 (values.map string)
  | .rows values => block '[' ']' 1 (values.map (row 2))

/-- **A record as a JSON object.** -/
def document (r : Record) : String :=
  String.ofList (block '\x7b' '\x7d' 0 (r.map fun (name, value) => field name (datum value)))

end Json

/-! ## Records as YAML -/

namespace Yaml

/-- A named text at an indentation, after what leads its line. -/
def textField (lead : String) (indent : Nat) (name value : String) : List Char :=
  lead.toList ++ name.toList ++ [':', ' '] ++ scalar (indent + 2) value.toList

/-- A row of a list: its first field follows the dash. -/
def row : List (String × String) → List Char
  | [] => "- \x7b\x7d\n".toList
  | (name, value) :: rest =>
    textField "- " 2 name value ++ rest.flatMap fun (name, value) => textField "  " 2 name value

/-- A list after its key. -/
def sequence (items : List (List Char)) : List Char :=
  if items = [] then " []\n".toList else '\n' :: items.flatten

/-- A field of a record. -/
def field (name : String) : Datum → List Char
  | .flag value => name.toList ++ [':', ' '] ++ (toString value).toList ++ ['\n']
  | .count value => name.toList ++ [':', ' '] ++ Nat.toDigits 10 value ++ ['\n']
  | .text value => textField "" 0 name value
  | .texts values =>
    name.toList ++ ':' :: sequence (values.map fun v => ['-', ' '] ++ scalar 2 v.toList)
  | .rows values => name.toList ++ ':' :: sequence (values.map row)

/-- **A record as a block mapping.** -/
def document (r : Record) : String :=
  String.ofList (r.flatMap fun (name, value) => field name value)

end Yaml

/-! ## Records as TOML -/

namespace Toml

/-- A named value on a line. -/
def line (name : String) (value : List Char) : List Char :=
  name.toList ++ [' ', '=', ' '] ++ value ++ ['\n']

/-- A list of texts. -/
def arrayLines (values : List String) : List Char :=
  match values with
  | [] => ['[', ']']
  | [v] => '[' :: (string v ++ [']'])
  | _ =>
    '[' :: '\n' :: ((values.flatMap fun v => "    ".toList ++ string v ++ [',', '\n']) ++ [']'])

/-- A row as a table of its own. -/
def tableLines (name : String) (r : List (String × String)) : List Char :=
  '\n' :: ("[[".toList ++ name.toList ++ "]]\n".toList ++
    r.flatMap fun (key, value) => line key (string value))

/-- A field of a record. -/
def fieldLines (name : String) : Datum → List Char
  | .flag value => line name (toString value).toList
  | .count value => line name (Nat.toDigits 10 value)
  | .text value => line name (string value)
  | .texts values => line name (arrayLines values)
  | .rows [] => line name ['[', ']']
  | .rows values => values.flatMap (tableLines name)

/-- **A record as a TOML document.** -/
def document (r : Record) : String :=
  String.ofList (r.flatMap fun (name, value) => fieldLines name value)

end Toml

/-! ## The forms of a report -/

/-- **The forms of a report.** -/
inductive ReportFormat where
  /-- For a reader. -/
  | console
  /-- For other programs. -/
  | data (format : DataFormat)
  deriving DecidableEq, Repr

/-- A form by its name, upper and lower case kept apart. -/
def ReportFormat.ofName? (name : String) : Option ReportFormat :=
  if name = "console" then some .console
  else if name = "json" then some (.data .json)
  else if name = "yaml" then some (.data .yaml)
  else if name = "toml" then some (.data .toml)
  else none

/-- A record in a structured format. -/
def DataFormat.document : DataFormat → Record → String
  | .json => Json.document
  | .yaml => Yaml.document
  | .toml => Toml.document

/-- **The report of a summary.** -/
def Summary.report (styled : Bool) (s : Summary) : ReportFormat → Except Abort String
  | .console => .ok (s.consoleReport styled)
  | .data format => match s.record? with
    | some r => .ok (format.document r)
    | none => .error (.unrenderable format)

end SourceCoding
