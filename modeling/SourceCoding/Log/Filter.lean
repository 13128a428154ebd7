import SourceCoding.Log.Directive

/-!
# Log filters

A filter is a list of directives with commas between them. Of the directives that speak of a record
the most specific one decides. Written directives that are wrong are ignored, with a complaint. One
of which a piece would start or end inside a character is not: it leaves no filter at all.

## Main definitions

* `LogFilter`, `LogFilter.read`: a filter and its written form
* `LogFilter.complaints`: what is said about the directives that are ignored
* `LogFilter.shows`: whether a record is shown
* `loggedText`: what a list of events shows
-/

namespace SourceCoding

/-- **A filter.** -/
structure LogFilter where
  /-- The directives, in order. -/
  directives : List Directive
  deriving DecidableEq, Repr

namespace LogFilter

/-- The filter that limits all records alike. -/
def ofLimit (limit : Limit) : LogFilter := ⟨[⟨none, .all, limit⟩]⟩

/-- The written directives of a filter; empty ones do not count. -/
def parts (text : String) : List String := (text.splitOn ",").filter (· ≠ "")

/-- The directives that are written well; the other ones are ignored. -/
def directivesOf : List String → Except SplitCharacter (List Directive)
  | [] => .ok []
  | part :: rest => match Directive.read part with
    | .ok d => do pure (d :: (← directivesOf rest))
    | .error (.splitCharacter split) => .error split
    | .error _ => directivesOf rest

/-- **A written filter**; one without a directive limits all records alike. -/
def read (text : String) (limit : Limit) : Except SplitCharacter LogFilter := do
  -- a filter of which every directive is ignored is one without a directive
  match ← directivesOf (parts text) with
  | [] => pure (ofLimit limit)
  | directives => pure ⟨directives⟩

/-- What is said about the written directives that are ignored, as far as they are read. -/
def complaintsOn : List String → String
  | [] => ""
  | part :: rest => match Directive.read part with
    | .ok _ => complaintsOn rest
    | .error (.splitCharacter _) => ""
    | .error e => "ignoring \x60" ++ part ++ "\x60: " ++ e.message ++ "\n" ++ complaintsOn rest

/-- What is said about the directives of a written filter that are ignored. -/
def complaints (text : String) : String := complaintsOn (parts text)

/-- **A record is shown.** -/
def shows (f : LogFilter) (r : LogRecord) : Bool :=
  match (f.directives.filter (Directive.covers · r)).foldl Directive.decisive none with
  | some d => d.limit.admits r.level
  | none => false

end LogFilter

/-- The line of an event in the log, if it is shown. -/
def Event.logLine (f : LogFilter) (e : Event) : String :=
  match e.logRecord? with
  | some r => if f.shows r then r.line else ""
  | none => ""

/-- All that a list of events shows on standard error: log lines and warnings, in order. -/
def loggedText (f : LogFilter) (styled : Bool) (events : List Event) : String :=
  String.join (events.map fun e => e.logLine f ++ e.warned styled)

end SourceCoding
