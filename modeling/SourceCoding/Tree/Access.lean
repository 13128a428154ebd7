import SourceCoding.Tree.Resolution

/-!
# File operations

Reading, writing, removing and looking, each on the location that a path names. An operation
answers with what it read or with the tree it leaves; one that is refused leaves no tree, so
nothing has changed. What changes a tree is also told as data, so that a record of it can be kept
and carried out elsewhere in the same order.

## Main definitions

* `Tree.read`: the content of a file, through links
* `Tree.write`: a file with a new content, created if nothing is there, through links
* `Tree.remove`: an entry that is no directory removed, links not followed
* `Tree.makeDirectory`: a directory where nothing is
* `Tree.inspect`, `Tree.status`: the entry a path names, without and with following a last link
* `Operation`: what can be done to a tree
* `Tree.perform`: the tree after an operation
-/

namespace SourceCoding

namespace Tree

variable (t : Tree) (cwd : Location)

/-- The entry a path names when the path is resolved for `aim`. -/
def entryAt (aim : Aim) (p : Path) : Except SystemError Entry := do
  let l ← t.locate cwd aim p
  match t.get? l with
  | some e => .ok e
  | none => .error .notFound

/-- **The entry a path names**, the link itself if it is one. -/
def inspect (p : Path) : Except SystemError Entry := t.entryAt cwd .inspect p

/-- **The entry a path leads to.** -/
def status (p : Path) : Except SystemError Entry := t.entryAt cwd .use p

/-- The path leads to a regular file. -/
def isFile (p : Path) : Bool :=
  match t.status cwd p with
  | .ok (.file _) => true
  | _ => false

/-- **The content of the file** a path leads to. -/
def read (p : Path) : Except SystemError Bytes := do
  match ← t.status cwd p with
  | .file content => .ok content
  | .dir => .error .isDirectory
  | .link _ => .error .tooManyLinks

/-- **A file written**: a new content for the file a path leads to, or a new file. -/
def write (p : Path) (content : Bytes) : Except SystemError Tree := do
  let l ← t.locate cwd .write p
  if t.get? l = some .dir then .error .isDirectory
  else .ok (t.put l (.file content))

/-- **An entry removed**, the link itself if it is one; directories are refused. -/
def remove (p : Path) : Except SystemError Tree := do
  let l ← t.locate cwd .remove p
  match t.get? l with
  | none => .error .notFound
  | some .dir => .error .isDirectory
  | some _ => .ok (t.erase l)

/-- **A directory made** where nothing is, not even a link; slashes at the end do not matter. -/
def makeDirectory (p : Path) : Except SystemError Tree := do
  let l ← match refusal? p with
    | some e => .error e
    | none => t.follow .inspect linkLimit (start cwd p) (p.steps.filter (· ≠ .slash))
  match t.get? l with
  | none => .ok (t.put l .dir)
  | some _ => .error .alreadyExists

/-- The tree without the entry a path names and all beneath it; the tree itself if there is none. -/
def removeAll (p : Path) : Tree :=
  match t.locate cwd .inspect p with
  | .ok l => t.erase l
  | .error _ => t

/-- The tree with directories at all locations on the way to a location. -/
def makeParents (l : Location) : Tree :=
  (List.range l.length).foldl
    (fun t n => if t.get? (l.take n) = none then t.put (l.take n) .dir else t) t

/-- The tree with an entry at a location, and directories on the way to it. -/
def plant (l : Location) (e : Entry) : Tree := (t.makeParents l).put l e

end Tree

/-! ## Operations as data -/

/-- **What can be done to a tree.** -/
inductive Operation where
  /-- A file written. -/
  | write (path : Path) (content : Bytes)
  /-- An entry removed that is no directory. -/
  | remove (path : Path)
  /-- A directory made. -/
  | makeDirectory (path : Path)
  /-- An entry removed with all beneath it, if it is there. -/
  | removeAll (path : Path)
  deriving DecidableEq, Repr

/-- **The tree after an operation**, unless it is refused. -/
def Tree.perform (t : Tree) (cwd : Location) : Operation → Except SystemError Tree
  | .write path content => t.write cwd path content
  | .remove path => t.remove cwd path
  | .makeDirectory path => t.makeDirectory cwd path
  | .removeAll path => .ok (t.removeAll cwd path)

end SourceCoding
