/-!
# TOML values and tables

A TOML document is a table of named values. Tables remember how they came about, since that decides
whether a later line may add to them: a table written inline is closed, a table opened by a header
may not be opened again, and a table that a dotted key brought about may only be extended by dotted
keys of the same table.

## Main definitions

* `Toml.Value`: texts, numbers, dates, truth values, arrays and tables
* `Toml.Fields.alter`: a change to the table at the end of a path
* `Toml.Fields.assign`, `Toml.Fields.openTable`, `Toml.Fields.openItem`: what the lines of a
  document do
-/

namespace SourceCoding.Toml

/-- **How a table came about.** -/
inductive TableKind where
  /-- Written inline: nothing is added to it. -/
  | inline
  /-- Opened by a header of its own; also the document itself. -/
  | opened
  /-- Passed through by the header of a table within it. -/
  | implied
  /-- Passed through by a dotted key. -/
  | dotted
  deriving DecidableEq, Repr

/-- **A value.** Floating-point numbers and dates are kept as they were written. -/
inductive Value where
  /-- A text. -/
  | text (value : String)
  /-- An integer. -/
  | integer (value : Int)
  /-- A floating-point number. -/
  | float (written : String)
  /-- A truth value. -/
  | boolean (value : Bool)
  /-- A date, a time or both. -/
  | dateTime (written : String)
  /-- An array. -/
  | array (items : List Value)
  /-- A table. -/
  | table (kind : TableKind) (fields : List (String × Value))
  /-- An array of tables, each opened by a header; later lines may add to the last one. -/
  | tables (items : List (List (String × Value)))
  deriving Repr

/-- **Named values** in the order in which they were written. -/
abbrev Fields := List (String × Value)

namespace Fields

/-- The value of a name. -/
def get? (fields : Fields) (key : String) : Option Value := fields.lookup key

/-- A name with another value. -/
def replace (fields : Fields) (key : String) (value : Value) : Fields :=
  fields.map fun (k, v) => if k = key then (k, value) else (k, v)

/-- A name with a value, which may not have one yet. -/
def add? (fields : Fields) (key : String) (value : Value) : Option Fields :=
  if (fields.get? key).isSome then none else some (fields ++ [(key, value)])

/-- A table may be passed through by a path. -/
def mayEnter (byDots : Bool) : TableKind → Bool
  | .inline => false
  | .opened => !byDots
  | .implied | .dotted => true

/-- **A change to the table at the end of a path.** Tables that are missing on the way come about;
of an array of tables the last one is meant. -/
def alter (byDots : Bool) (change : TableKind → Fields → Option Fields) :
    List String → TableKind → Fields → Option Fields
  | [], kind, fields => change kind fields
  | key :: path, _, fields =>
    match fields.get? key with
    | none => do
      let kind := if byDots then TableKind.dotted else .implied
      fields.add? key (.table kind (← alter byDots change path kind []))
    | some (.table kind inner) =>
      if mayEnter byDots kind then do
        pure (fields.replace key (.table kind (← alter byDots change path kind inner)))
      else none
    | some (.tables items) => do
      let last ← items.getLast?
      pure (fields.replace key
        (.tables (items.dropLast ++ [← alter byDots change path .opened last])))
    | some _ => none

/-- **A value assigned** to a dotted key of the table at the end of a header's path. -/
def assign (header path : List String) (key : String) (value : Value) (kind : TableKind)
    (fields : Fields) : Option Fields :=
  alter false (fun kind fields =>
    alter true (fun kind fields =>
      if (kind = .dotted) = (path ≠ []) then fields.add? key value else none) path kind fields)
    header kind fields

/-- **A table opened** by a header. -/
def openTable (path : List String) (key : String) (fields : Fields) : Option Fields :=
  alter false (fun _ fields =>
    match fields.get? key with
    | none => fields.add? key (.table .opened [])
    | some (.table .implied inner) => some (fields.replace key (.table .opened inner))
    | some _ => none) path .opened fields

/-- **One more table of an array of tables opened** by a header. -/
def openItem (path : List String) (key : String) (fields : Fields) : Option Fields :=
  alter false (fun _ fields =>
    match fields.get? key with
    | none => fields.add? key (.tables [[]])
    | some (.tables items) => some (fields.replace key (.tables (items ++ [[]])))
    | some _ => none) path .opened fields

end Fields

end SourceCoding.Toml
