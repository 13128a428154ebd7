import SourceCoding.Bytes

/-!
# Configuration

The settings of a pass: the encoding that declarations name, which files are sources, which
directories are left out, how backups are named, and whether the first failure ends the pass.

## Main definitions

* `Config`: the settings, with their defaults
* `Config.declarationLine`: the line that is inserted
-/

namespace SourceCoding

/-- The comment that names an encoding. -/
def declarationText (coding : String) : String := "# -*- coding: " ++ coding ++ " -*-"

/-- **The settings of a pass.** -/
structure Config where
  /-- The encoding that inserted declarations name. -/
  coding : String := "UTF-8"
  /-- What follows the last dot in the name of a source. -/
  extension : String := "py"
  /-- The name of the directories that are left out with all beneath them. -/
  excludedDir : String := "migrations"
  /-- What follows the name of a source in the name of its backup. -/
  backupSuffix : String := ".checker"
  /-- The first source that cannot be processed ends the pass. -/
  failFast : Bool := false
  deriving DecidableEq, Repr, Inhabited

namespace Config

/-- **The line that is inserted**, its line feed included. -/
def declarationLine (c : Config) : String := declarationText c.coding ++ "\n"

/-- The inserted line as bytes. -/
def declaration (c : Config) : Bytes := Bytes.ofString c.declarationLine

/-- How the name of a source ends: a dot and the extension. -/
def sourceEnding (c : Config) : Bytes := Bytes.ofString ("." ++ c.extension)

end Config

end SourceCoding
