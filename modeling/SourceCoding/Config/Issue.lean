import SourceCoding.Config
import SourceCoding.Declaration
import SourceCoding.Text.Character
import SourceCoding.Text.Quoted

/-!
# Issues of a configuration

A configuration is checked before any file is touched. Apart from well-formed names the check makes
sure that the line a configuration inserts is itself recognised as a declaration: otherwise every
pass would insert another one.

## Main definitions

* `Issue`: what can be wrong with a setting
* `codingIssues`: the issues of an encoding name
* `Config.issues`: the issues of a configuration, in order

## Main results

* `hasPart_iff`: containing a part is being an extension of it on both sides
-/

namespace SourceCoding

/-- The settings that become part of a file name. -/
inductive NameSetting where
  /-- The extension of sources. -/
  | extension
  /-- The name of excluded directories. -/
  | excludedDir
  /-- The suffix of backups. -/
  | backupSuffix
  deriving DecidableEq, Repr

/-- The name of the setting in a configuration file and in messages. -/
def NameSetting.key : NameSetting → String
  | .extension => "extension"
  | .excludedDir => "excluded_dir"
  | .backupSuffix => "backup_suffix"

/-- **What can be wrong with a setting.** -/
inductive Issue where
  /-- The encoding has no name. -/
  | emptyCoding
  /-- The name of the encoding has white space. -/
  | blankInCoding (coding : String)
  /-- The name of the encoding has the marker that ends a declaration. -/
  | markerInCoding (coding : String)
  /-- The line that would be inserted is no declaration. -/
  | unrecognised (coding : String)
  /-- A part of a file name is empty. -/
  | emptyName (setting : NameSetting)
  /-- A part of a file name has a path separator. -/
  | separatorInName (setting : NameSetting) (value : String)
  /-- The extension has its dot. -/
  | leadingDot (extension : String)
  deriving DecidableEq, Repr

/-- The text of an issue. -/
def Issue.message : Issue → String
  | .emptyCoding => "coding must not be empty"
  | .blankInCoding coding => "coding must not contain whitespace: " ++ quote coding
  | .markerInCoding coding => "coding must not contain the '-*-' marker: " ++ quote coding
  | .unrecognised coding =>
    "coding " ++ quote coding ++ " would produce a declaration that is not recognized " ++
      "(expected a name like 'utf-8' or 'latin-1')"
  | .emptyName setting => setting.key ++ " must not be empty"
  | .separatorInName setting value =>
    setting.key ++ " must not contain path separators: " ++ quote value
  | .leadingDot extension => "extension is given without the leading dot: " ++ quote extension

/-- The marker that stands at both ends of a declaration. -/
def marker : List Char := ['-', '*', '-']

/-- A text contains a part. -/
def hasPart (part : List Char) : List Char → Bool
  | [] => part.isEmpty
  | c :: rest => part.isPrefixOf (c :: rest) || hasPart part rest

theorem hasPart_iff {part text : List Char} : hasPart part text ↔ part <:+: text := by
  induction text with
  | nil => simp [hasPart]
  | cons c rest ih => simp [hasPart, ih, List.infix_cons_iff]

/-- **The issues of an encoding name.** An empty name has no further ones. -/
def codingIssues (coding : String) : List Issue :=
  if coding.toList = [] then [.emptyCoding]
  else
    (if coding.toList.any isBlank then [.blankInCoding coding] else []) ++
    (if hasPart marker coding.toList then [.markerInCoding coding] else []) ++
    (if isDeclaration (Bytes.ofString (declarationText coding)) then [] else
      [.unrecognised coding])

/-- The issues of a setting as part of a file name. -/
def nameIssues (setting : NameSetting) (value : String) : List Issue :=
  (if value.toList = [] then [.emptyName setting] else []) ++
  (if value.toList.any (fun c => c = '/' || c = '\\') then [.separatorInName setting value] else [])

/-- **The issues of a configuration**, in order; a configuration without any is usable. -/
def Config.issues (c : Config) : List Issue :=
  codingIssues c.coding ++
  nameIssues .extension c.extension ++
  (if c.extension.toList.head? = some '.' then [.leadingDot c.extension] else []) ++
  nameIssues .excludedDir c.excludedDir ++
  nameIssues .backupSuffix c.backupSuffix

/-- A configuration that may be used for a pass. -/
def Config.Valid (c : Config) : Prop := c.issues = []

instance (c : Config) : Decidable c.Valid := inferInstanceAs (Decidable (_ = _))

end SourceCoding
