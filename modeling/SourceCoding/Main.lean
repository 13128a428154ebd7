import SourceCoding.Command

/-!
# The program

The outer layer: the places that a command line names are read into a tree, the command is run on
it, and what it did is done to the files in the same order, so that an interruption leaves them in a
state the command went through. Log lines have no time stamp. Links are taken to lead straight to
where they end; one that leads nowhere counts as nothing.
-/

namespace SourceCoding

/-- The location of a place that is given by an absolute path without links on the way. -/
def locationOf (place : String) : Location :=
  (Path.segmentsOf (Bytes.ofString place)).filter (· ≠ [])

/-- Where a path leads, if it leads to something. -/
def destination (path : String) : IO (Option String) := do
  match ← (IO.FS.realPath path).toBaseIO with
  | .ok place => pure (some place.toString)
  | .error _ => pure none

/-- The tree with the directory or file at a place; a link is not looked at. -/
def Tree.noteEntry (t : Tree) (place : String) : IO Tree := do
  match ← ((← IO.currentDir) / place).symlinkMetadata.toBaseIO with
  | .ok ⟨_, _, _, .dir, _⟩ => pure (t.plant (locationOf place) .dir)
  | .ok ⟨_, _, _, .file, _⟩ =>
    pure (t.plant (locationOf place) (.file (← IO.FS.readBinFile place).toList))
  | _ => pure t

/-- The tree with what is at a place, and where that is a link, with what it leads to. -/
def Tree.note (t : Tree) (place : String) : IO Tree := do
  match ← destination place with
  | none => pure t
  | some target =>
    let t ← t.noteEntry target
    if locationOf target = locationOf place then pure t
    else pure (t.plant (locationOf place) (.link (.ofString target)))

/-- The tree with all that is below a place. -/
partial def Tree.noteBelow (t : Tree) (place : String) : IO Tree := do
  let here := (← IO.currentDir) / place
  (← here.readDir).foldlM (fun t entry => do
    let inner := place ++ "/" ++ entry.fileName
    let t ← t.note inner
    match (← (here / entry.fileName).symlinkMetadata).type with
    | .dir => t.noteBelow inner
    | _ => pure t) t

/-- The tree with what is on the way of a path, and the place to which it leads from `place`. -/
def Tree.noteAlong (t : Tree) (place : String) : List String → IO (Tree × Option String)
  | [] => pure (t, some place)
  | segment :: rest => do
    let next := place ++ "/" ++ segment
    let t ← if segment ∈ ["", ".", ".."] then pure t else t.note next
    match ← destination next with
    | some place => t.noteAlong place rest
    | none => pure (t, none)

/-- The tree with what a path names, and all below it. -/
def Tree.noteAt (t : Tree) (cwd : String) (path : Path) : IO Tree := do
  let start := if path.isAbsolute then "/" else cwd
  match ← t.noteAlong start (path.display.splitOn "/") with
  | (t, some place) => if ← ((← IO.currentDir) / place).isDir then t.noteBelow place else pure t
  | (t, none) => pure t

/-- An operation carried out on the files. -/
def Operation.carryOut : Operation → IO Unit
  | .write path content => IO.FS.writeBinFile path.display ⟨content.toArray⟩
  | .remove path => IO.FS.removeFile path.display
  | .makeDirectory path => IO.FS.createDir path.display
  | .removeAll path => IO.FS.removeDirAll path.display

/-- What is found where the program is run. -/
def Surroundings.find (words : List Bytes) (cwd scratch : String) : IO Surroundings := do
  let bare := (Tree.empty.plant (locationOf cwd) .dir).plant (locationOf scratch) .dir
  let named := match Invocation.read words with
    | .ok i => i.configFile.toList ++ i.directory.toList
    | .error _ => []
  let tree ← named.foldlM (fun t path => t.noteAt cwd path) bare
  let styled := Style.isWanted (← IO.getEnv "CLICOLOR_FORCE") (← IO.getEnv "NO_COLOR")
    (← IO.getEnv "CLICOLOR") (← (← IO.getStdout).isTty)
  pure {
    tree, styled
    cwd := locationOf cwd
    scratch := (Path.ofString scratch).join (.ofString "scratch")
    logFilter := (← IO.getEnv "RUST_LOG").getD "" }

end SourceCoding

open SourceCoding in
/-- **The program.** -/
def main (args : List String) : IO UInt32 := do
  let words := args.map Bytes.ofString
  let cwd ← IO.FS.realPath (← IO.currentDir)
  IO.FS.withTempDir fun scratch => do
    let surroundings ← Surroundings.find words cwd.toString (← IO.FS.realPath scratch).toString
    let conclusion := Command.run surroundings words
    conclusion.operations.forM Operation.carryOut
    IO.print conclusion.output
    IO.eprint (conclusion.log ++ conclusion.complaint)
    pure conclusion.status.toUInt32
