import SourceCoding.Tree
import SourceCoding.Tree.SystemError

/-!
# Resolution of paths

A path is resolved step by step from the root of the tree or from the working directory. Every
name but the last must lead to a directory; symbolic links are followed on the way, up to a limit.
What happens at the last name depends on what the path is resolved for.

## Main definitions

* `Aim`: what the path is resolved for
* `Tree.descend`: the steps up to the first symbolic link that is followed
* `Tree.follow`: the steps with a budget of links
* `Tree.locate`: the location that a path names; the entry there may be missing
-/

namespace SourceCoding

/-- **What a path is resolved for**, which decides about its last name. -/
inductive Aim where
  /-- To use what is there: a link is followed. -/
  | use
  /-- To write a file: a link is followed, and a final slash is refused. -/
  | write
  /-- To look at the entry itself: a link is not followed unless a slash comes after it. -/
  | inspect
  /-- To remove the entry itself: a link is never followed. -/
  | remove
  deriving DecidableEq, Repr

/-- A link as the last thing of a path is not followed for looking at it or removing it. -/
def Aim.takesLink : Aim → Bool
  | .inspect | .remove => true
  | .use | .write => false

/-- The number of links that one path may lead through. -/
def linkLimit : Nat := 40

/-- The length that no path reaches. -/
def pathLimit : Nat := 4096

namespace Tree

/-- **Steps from a directory.** `jump` says how to go on at a link, from the directory it is in. -/
def descend (t : Tree) (jump : Location → Path → List Path.Step → Except SystemError Location)
    (aim : Aim) : Location → List Path.Step → Except SystemError Location
  | here, [] => .ok here
  | here, .stay :: rest => descend t jump aim here rest
  | here, .slash :: rest => descend t jump aim here rest
  | here, .up :: rest => descend t jump aim here.dropLast rest
  | here, .name n :: rest =>
    -- a file cannot be made under a name that asks for a directory
    if aim = .write ∧ rest = [.slash] then .error .isDirectory
    else if nameLimit < n.length then .error .nameTooLong
    else match t.get? (here ++ [n]) with
      -- only the last name may be free
      | none => if rest = [] then .ok (here ++ [n]) else .error .notFound
      | some .dir => descend t jump aim (here ++ [n]) rest
      | some (.file _) => if rest = [] then .ok (here ++ [n]) else .error .notDirectory
      | some (.link target) =>
        if rest = [] ∧ aim.takesLink then .ok (here ++ [n])
        -- a slash asks for a directory, and the link itself is none
        else if rest = [.slash] ∧ aim = .remove then .error .notDirectory
        else jump here target rest

/-- Where a path starts. -/
def start (here : Location) (p : Path) : Location := if p.isAbsolute then [] else here

/-- **Steps from a directory with a budget of links.** -/
def follow (t : Tree) (aim : Aim) : Nat → Location → List Path.Step → Except SystemError Location
  | 0 => t.descend (fun _ _ _ => .error .tooManyLinks) aim
  | budget + 1 =>
    t.descend (fun here target rest =>
      follow t aim budget (start here target) (target.steps ++ rest)) aim

/-- Some paths are refused before the tree is looked at. -/
def refusal? (p : Path) : Option SystemError :=
  if p.bytes.contains 0 then some .zeroByte
  else if p.bytes = [] then some .notFound
  else if pathLimit ≤ p.bytes.length then some .nameTooLong
  else none

/-- **The location that a path names**, seen from a working directory. The entry itself may be
missing when everything before it is there. -/
def locate (t : Tree) (cwd : Location) (aim : Aim) (p : Path) : Except SystemError Location :=
  match refusal? p with
  | some e => .error e
  | none => t.follow aim linkLimit (start cwd p) p.steps

end Tree

end SourceCoding
