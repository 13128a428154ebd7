import SourceCoding.Pass
import SourceCoding.Text.Quoted

/-!
# The self-test

Before a pass a few scenarios are played through under the configuration in use, each in a scratch
directory of its own that is removed afterwards. A scenario that fails is reported and ends
nothing.

## Main definitions

* `Scenario`: a name and what is played through in a scratch directory
* `scenarios`: all of them, in order
* `selfTest`: the self-test as an action that cannot fail
-/

namespace SourceCoding

/-- An action that fails with the texts of what went wrong, from the outermost inwards. -/
abbrev Trial := Act (List String)

namespace Trial

/-- What must hold, with the text shown if it does not. -/
def expect (condition : Bool) (text : String) : Trial Unit :=
  if condition then pure () else throw [text]

/-- A step whose failure is told by its chain. -/
def ofAct {α : Type} (a : Act Failure α) : Trial α := do
  match ← Act.attempt a with
  | .ok x => pure x
  | .error e => throw e.chain

/-- A file written. -/
def write (path : Path) (content : String) : Trial Unit :=
  Act.change (.write path (Bytes.ofString content)) fun e => [e.message]

/-- A directory made. -/
def makeDirectory (path : Path) : Trial Unit :=
  Act.change (.makeDirectory path) fun e => [e.message]

/-- The content of a file. -/
def read (path : Path) : Trial Bytes :=
  Act.query (fun t cwd => t.read cwd path) fun e => [e.message]

/-- The content of a file that must be text. -/
def readText (path : Path) : Trial String := do
  match Utf8.decode? (← read path) with
  | some text => pure text
  | none => throw [SystemError.notText.message]

/-- A path leads to something. -/
def exists? (path : Path) : Trial Bool := do
  let s ← get
  pure ((s.tree.status s.cwd path).toOption.isSome)

end Trial

/-- **A scenario.** -/
structure Scenario where
  /-- The name by which it is reported. -/
  name : String
  /-- What is played through in a scratch directory. -/
  play : Path → Config → Trial Unit

namespace Scenario

open Trial

/-- The source of a scenario. -/
def sourcePath (scratch : Path) (c : Config) : Path :=
  scratch.join (.ofString ("test." ++ c.extension))

/-- A list of paths as messages show it. -/
def quotePaths (paths : List Path) : String :=
  "[" ++ ", ".intercalate (paths.map fun p => quotePath p.bytes) ++ "]"

/-- The patcher of a scenario. -/
def patcher (c : Config) : Patcher := .ofConfig c .apply

/-- The source has the content it should have. -/
def expectContent (path : Path) (expected : String) : Trial Unit := do
  let actual ← readText path
  expect (actual = expected) ("unexpected content: " ++ quote actual)

/-- A source is collected. -/
def listsSources : Scenario where
  name := "collector lists source files"
  play scratch c := do
    let path := sourcePath scratch c
    write path "loren ipsum line\nloren ipsum line\n"
    let files ← ofAct (collect c scratch)
    expect (files = [path]) ("unexpected files: " ++ quotePaths files)

/-- A source in an excluded directory is not. -/
def skipsExcluded : Scenario where
  name := "collector skips excluded directories"
  play scratch c := do
    let excluded := scratch.join (.ofString c.excludedDir)
    makeDirectory excluded
    write (sourcePath excluded c) "x = 1\n"
    let files ← ofAct (collect c scratch)
    expect files.isEmpty ("excluded files were collected: " ++ quotePaths files)

/-- A content is, or is not, recognised as declaring its encoding. -/
def recognition (name content : String) (verdict : Bool) (complaint : String) : Scenario where
  name
  play scratch c := do
    let path := sourcePath scratch c
    write path content
    expect ((← ofAct (compliant path)) = verdict) complaint

/-- A source gets its declaration. -/
def insertsDeclaration : Scenario where
  name := "patcher inserts declaration"
  play scratch c := do
    let path := sourcePath scratch c
    write path "loren ipsum line\nloren ipsum line\n"
    let outcome ← ofAct ((patcher c).patch path)
    expect (outcome.action = .patched) "file was not patched"
    expectContent path (c.declarationLine ++ "loren ipsum line\nloren ipsum line\n")
    expect (← ofAct (compliant path)) "patched file is not compliant"

/-- An interpreter directive stays on line 1. -/
def keepsDirective : Scenario where
  name := "patcher keeps interpreter directive"
  play scratch c := do
    let path := sourcePath scratch c
    write path "#!/usr/bin/env python\nprint('ok')\n"
    let _ ← ofAct ((patcher c).patch path)
    expectContent path ("#!/usr/bin/env python\n" ++ c.declarationLine ++ "print('ok')\n")

/-- A second pass finds nothing to do. -/
def isIdempotent : Scenario where
  name := "patcher is idempotent"
  play scratch c := do
    let path := sourcePath scratch c
    write path "x = 1\n"
    let _ ← ofAct ((patcher c).patch path)
    let once ← read path
    let outcome ← ofAct ((patcher c).patch path)
    expect (outcome.action = .alreadyCompliant) "second pass patched again"
    expect ((← read path) = once) "second pass changed the file"

/-- A source is restored from a backup before it is patched. -/
def recovers : Scenario where
  name := "patcher recovers from backup"
  play scratch c := do
    let path := sourcePath scratch c
    let backup := (patcher c).store.backupPath path
    write path "half-written"
    write backup "original\n"
    let outcome ← ofAct ((patcher c).patch path)
    expect outcome.hadBackup "backup was not used"
    expectContent path (c.declarationLine ++ "original\n")
    expect (!(← exists? backup)) "backup was left behind"

end Scenario

/-- **All scenarios**, in order. -/
def scenarios : List Scenario := [
  .listsSources,
  .skipsExcluded,
  .recognition "checker rejects plain text" "loren ipsum line 1\nloren ipsum line 2\n" false
    "plain text reported compliant",
  .recognition "checker accepts declaration on line 1"
    "# -*- coding: utf-8 -*-\ncontinua na segunda linha\n" true "line 1 declaration not detected",
  .recognition "checker accepts declaration after directive"
    "#!/usr/bin/env python\n# -*- coding: UTF-8 -*-\n" true "line 2 declaration not detected",
  .recognition "checker ignores line 3" "one\ntwo\n# -*- coding: utf-8 -*-\n" false
    "line 3 declaration was accepted",
  .insertsDeclaration,
  .keepsDirective,
  .isIdempotent,
  .recovers]

/-- A scenario in a scratch directory that is made before and removed after it. -/
def Scenario.playIn (scratch : Path) (c : Config) (s : Scenario) : Trial Unit := do
  Act.change (.makeDirectory scratch) fun e =>
    ["Failed to create scratch directory", e.message]
  let result ← Act.attempt (s.play scratch c)
  -- the directory goes whether or not the scenario failed
  Act.change (.removeAll scratch) fun e => [e.message]
  match result with
  | .ok () => pure ()
  | .error texts => throw texts

/-- The report with the result of one more scenario. -/
def Scenario.judge {ε : Type} (scratch : Path) (c : Config) (r : SelfTestReport) (s : Scenario) :
    Act ε SelfTestReport := do
  match ← Act.attempt (s.playIn scratch c) with
  | .ok () => pure { r with passed := r.passed ++ [s.name] }
  | .error texts =>
    let text := ": ".intercalate texts
    emit (.scenarioFailed s.name text)
    pure { r with failed := r.failed ++ [(s.name, text)] }

/-- **The self-test** under a configuration, in a scratch directory. -/
def selfTest {ε : Type} (scratch : Path) (c : Config) : Act ε SelfTestReport := do
  let report ← scenarios.foldlM (Scenario.judge scratch c) {}
  emit (.selfTested report)
  pure report

end SourceCoding
