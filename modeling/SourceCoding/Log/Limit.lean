import SourceCoding.Log
import SourceCoding.Text.Decimal

/-!
# Limits of the log

Of the records of a log those are shown that are important enough.

## Main definitions

* `Limit`: the least important level that is shown
* `Limit.admits`: records of a level are shown
* `Limit.read?`: a limit in writing
-/

namespace SourceCoding

/-- **The least important level that is shown**; without one nothing is. -/
abbrev Limit := Option Level

namespace Limit

/-- Records of a level are shown. -/
def admits (limit : Limit) (level : Level) : Bool :=
  match limit with
  | none => false
  | some least => level.rank ≤ least.rank

/-- A limit by its place in the order. -/
def ofRank? : Nat → Option Limit
  | 0 => some none
  | 1 => some (some .error)
  | 2 => some (some .warn)
  | 3 => some (some .info)
  | 4 => some (some .debug)
  | 5 => some (some .trace)
  | _ => none

/-- A limit by its name, in upper or lower case. -/
def ofName? (name : String) : Option Limit :=
  if name = "off" then some none
  else if name = "error" then some (some .error)
  else if name = "warn" then some (some .warn)
  else if name = "info" then some (some .info)
  else if name = "debug" then some (some .debug)
  else if name = "trace" then some (some .trace)
  else none

/-- A written limit: a name, or a number with or without a plus sign. -/
def read? (text : List Char) : Option Limit :=
  let digits := match text with
    | '+' :: rest => rest
    | _ => text
  match number? 10 digits with
  | some n => ofRank? n
  | none => ofName? (String.ofList (text.map Char.toLower))

end Limit

end SourceCoding
