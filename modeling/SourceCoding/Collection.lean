import SourceCoding.Failure
import SourceCoding.Session

/-!
# Collecting sources

The sources of a directory are the files below it whose names end in a dot and the extension. A
walk meets the entries in the order of the tree's listing and does not follow links to
directories; a link to a file is a source under its own name. Directories with the excluded name
are passed over with all beneath them. Every other directory is opened by its path when the walk
comes to it, and one that cannot be opened ends the walk.

## Main definitions

* `Tree.below`: the entries below a location
* `Finding`: what a walk notices
* `Walk`: the findings of a walk, and what ended it early
* `Tree.survey`: the walk from a root
* `collect`: the sources below a directory, as an action

## Main results

* `Walk.ofSteps_map_ok`: nothing is left out where every step succeeds
-/

namespace SourceCoding

/-- The entries below a location, each with the names that lead to it from there. -/
def Tree.below (t : Tree) (root : Location) : List (Location × Entry) :=
  t.listing.filterMap fun (l, e) =>
    if root.isPrefixOf l && l ≠ root then some (l.drop root.length, e) else none

/-- **What a walk notices.** -/
inductive Finding where
  /-- A source. -/
  | source (path : Path)
  /-- A directory that is passed over. -/
  | excluded (path : Path)
  deriving DecidableEq, Repr

/-- The source that was found. -/
def Finding.source? : Finding → Option Path
  | .source path => some path
  | .excluded _ => none

/-- What is told about a finding. -/
def Finding.event : Finding → Event
  | .source path => .collected path
  | .excluded path => .directorySkipped path

/-- **A walk**: what it noticed, and what ended it early. -/
structure Walk where
  /-- The findings, in order. -/
  findings : List Finding
  /-- What ended the walk before all was seen. -/
  obstacle : Option Failure := none
  deriving DecidableEq, Repr

namespace Walk

/-- A walk, or the rest of one, that a failure keeps from being made. -/
def refused (failure : Failure) : Walk := { findings := [], obstacle := some failure }

/-- The walk that a list of steps makes, up to the first that fails. -/
def ofSteps : List (Except Failure Finding) → Walk
  | [] => { findings := [] }
  | .ok finding :: rest =>
    let walk := ofSteps rest
    { walk with findings := finding :: walk.findings }
  | .error failure :: _ => refused failure

/-- The sources that were found, in order. -/
def sources (walk : Walk) : List Path := walk.findings.filterMap Finding.source?

theorem ofSteps_map_ok (findings : List Finding) :
    ofSteps (findings.map Except.ok) = { findings } := by
  induction findings with
  | nil => rfl
  | cons finding rest ih => simp [ofSteps, ih]

end Walk

/-- The name of a source ends in a dot and the extension. -/
def Config.isSourceName (c : Config) (name : Bytes) : Bool := c.sourceEnding.isSuffixOf name

/-- The name of the directories that are passed over. -/
def Config.excludedName (c : Config) : Bytes := Bytes.ofString c.excludedDir

/-- The path of an entry below a root. -/
def Path.descendant (root : Path) (names : Location) : Path := names.foldl Path.child root

/-- What the walk below `root` notices at one entry, given by the names that lead to it, or the
failure that ends it there. -/
def Tree.notice (t : Tree) (cwd : Location) (c : Config) (root : Path) :
    Location × Entry → Option (Except Failure Finding)
  | (names, e) =>
    let path := root.descendant names
    let name := names.getLast?.getD []
    if c.excludedName ∈ names.dropLast then none
    else match e with
      | .dir =>
        if name = c.excludedName then some (.ok (.excluded path))
        else match t.status cwd path with
          | .ok _ => none
          | .error e => some (.error (.walk path e))
      | .file _ => if c.isSourceName name then some (.ok (.source path)) else none
      | .link _ =>
        if t.isFile cwd path && c.isSourceName name then some (.ok (.source path)) else none

/-- The walk through the directory at a location, to which `root` leads. -/
def Tree.walkBelow (t : Tree) (cwd : Location) (c : Config) (root : Path) (l : Location) : Walk :=
  .ofSteps ((t.below l).filterMap (t.notice cwd c root))

/-- The name of a root: its last segment, or all of it if that is no name. -/
def Path.rootName (root : Path) : Bytes := root.fileName?.getD root.bytes

/-- **The walk from a root.** A root that is a link is followed, and its name excludes nothing. -/
def Tree.survey (t : Tree) (cwd : Location) (c : Config) (root : Path) : Walk :=
  let single : Walk := { findings := if c.isSourceName root.rootName then [.source root] else [] }
  let below := fun
    | .ok l => t.walkBelow cwd c root l
    | .error e => .refused (.walk root e)
  if !root.isAbsolute then .refused (.relative root)
  else match t.inspect cwd root with
    | .error e => .refused (.walk root e)
    | .ok (.file _) => single
    | .ok .dir =>
      -- a root with the excluded name is passed over like any directory below it
      if root.rootName = c.excludedName then { findings := [.excluded root] }
      else below (t.locate cwd .inspect root)
    | .ok (.link _) =>
      match t.status cwd root with
      | .error e => .refused (.walk root e)
      | .ok .dir => below (t.locate cwd .use root)
      | .ok _ => single

/-- **The sources below a directory**, in the order of the walk. -/
def collect (c : Config) (root : Path) : Act Failure (List Path) := do
  let s ← get
  let walk := s.tree.survey s.cwd c root
  emitAll (walk.findings.map Finding.event)
  match walk.obstacle with
  | some failure => throw failure
  | none =>
    emit (.collectionFinished root walk.sources.length)
    pure walk.sources

end SourceCoding
