import SourceCoding.Path
import SourceCoding.Report
import SourceCoding.Text.Control

/-!
# Arguments

A command line is a list of words. A word is the name of an option, with or without a value after
an equals sign, a cluster of letters, each a switch, or a word by itself, which is the value of the
option before it or else the directory. After two hyphens every word is one by itself.

What is wrong with a value is only said when the value is settled, that is at the next option or
switch, at the directory, or at the end.

## Main definitions

* `Invocation`: what a command line asks for
* `UsageError`: what can be wrong with it
* `Stop`: the ends of a command that come before its work
* `Word`: one word by its form
* `Invocation.read`: a command line
-/

namespace SourceCoding

/-- **What a command line asks for.** -/
structure Invocation where
  /-- The directory to fix. -/
  directory : Option Path := none
  /-- The encoding, in place of the one in the configuration file. -/
  coding : Option String := none
  /-- The configuration file. -/
  configFile : Option Path := none
  /-- The form of the report. -/
  report : Option ReportFormat := none
  /-- Sources are only inspected. -/
  check : Bool := false
  /-- The first failure ends the pass. -/
  failFast : Bool := false
  /-- The self-test is left out. -/
  skipSelfTest : Bool := false
  /-- How often more log records are asked for. -/
  verbose : Nat := 0
  /-- How often fewer log records are asked for. -/
  quiet : Nat := 0
  deriving DecidableEq, Repr

/-- What takes a value. -/
inductive Parameter where
  /-- The encoding. -/
  | coding
  /-- The configuration file. -/
  | configFile
  /-- The form of the report. -/
  | report
  /-- The directory, which has no name on the command line. -/
  | directory
  deriving DecidableEq, Repr

namespace Parameter

/-- The parameter as messages show it. -/
def label : Parameter → String
  | .coding => "--coding <NAME>"
  | .configFile => "--config <FILE>"
  | .report => "--report <FORMAT>"
  | .directory => "[DIR]"

/-- A parameter by its name. -/
def ofName? (name : String) : Option Parameter :=
  if name = "coding" then some .coding
  else if name = "config" then some .configFile
  else if name = "report" then some .report
  else none

end Parameter

/-- What takes no value. -/
inductive Switch where
  /-- Sources are only inspected. -/
  | check
  /-- The first failure ends the pass. -/
  | failFast
  /-- The self-test is left out. -/
  | skipSelfTest
  /-- More log records; this one may be repeated. -/
  | verbose
  /-- Fewer log records; this one may be repeated. -/
  | quiet
  /-- The help text is printed, and that is all. -/
  | help
  /-- The version is printed, and that is all. -/
  | version
  deriving DecidableEq, Repr

namespace Switch

/-- The switch as messages show it. -/
def label : Switch → String
  | .check => "--check"
  | .failFast => "--fail-fast"
  | .skipSelfTest => "--skip-self-test"
  | .verbose => "-v..."
  | .quiet => "-q..."
  | .help => "--help"
  | .version => "--version"

/-- A switch by its name. -/
def ofName? (name : String) : Option Switch :=
  if name = "check" then some .check
  else if name = "fail-fast" then some .failFast
  else if name = "skip-self-test" then some .skipSelfTest
  else if name = "help" then some .help
  else if name = "version" then some .version
  else none

/-- A switch by its letter. -/
def ofLetter? (c : Char) : Option Switch :=
  if c = 'v' then some .verbose
  else if c = 'q' then some .quiet
  else if c = 'h' then some .help
  else if c = 'V' then some .version
  else none

end Switch

/-- **What can be wrong with a command line.** -/
inductive UsageError where
  /-- A word has no place. -/
  | unexpectedArgument (word : String)
  /-- A switch was given a value. -/
  | unexpectedValue (value : String) (switch : Switch)
  /-- A parameter was given no value. -/
  | valueRequired (parameter : Parameter)
  /-- A parameter was given twice. -/
  | repeatedParameter (parameter : Parameter)
  /-- A switch was given twice. -/
  | repeatedSwitch (switch : Switch)
  /-- A parameter does not have such a value. -/
  | invalidValue (value : String) (parameter : Parameter)
  /-- A value must be text and is not. -/
  | notText
  deriving DecidableEq, Repr

/-- The text for what is wrong. What it repeats of the command line it repeats without control
sequences. -/
def UsageError.message : UsageError → String
  | .unexpectedArgument word => "unexpected argument '" ++ withoutControls word ++ "' found"
  | .unexpectedValue value switch => "unexpected value '" ++ withoutControls value ++ "' for '" ++
      switch.label ++ "' found; no more were expected"
  | .valueRequired parameter =>
    "a value is required for '" ++ parameter.label ++ "' but none was supplied"
  | .repeatedParameter parameter =>
    "the argument '" ++ parameter.label ++ "' cannot be used multiple times"
  | .repeatedSwitch switch => "the argument '" ++ switch.label ++ "' cannot be used multiple times"
  | .invalidValue value parameter =>
    "invalid value '" ++ withoutControls value ++ "' for '" ++ parameter.label ++ "'"
  | .notText => "invalid UTF-8 was detected in one or more arguments"

/-- **The ends of a command that come before its work.** -/
inductive Stop where
  /-- The help text is asked for. -/
  | help
  /-- The version is asked for. -/
  | version
  /-- The command line is wrong. -/
  | misuse (error : UsageError)
  deriving DecidableEq, Repr

/-! ## Words -/

/-- **One word** by its form. -/
inductive Word where
  /-- Every word after this one is a word by itself. -/
  | divider
  /-- The name of a parameter or switch, and what stands after an equals sign. -/
  | named (name : Bytes) (value : Option Bytes)
  /-- A cluster of letters. -/
  | letters (cluster : Bytes)
  /-- A word by itself. -/
  | plain (text : Bytes)
  deriving DecidableEq, Repr

/-- The equals sign. -/
def Bytes.equals : UInt8 := 0x3D

/-- A word by its form; a single hyphen is a word by itself. -/
def Word.ofBytes : Bytes → Word
  | a :: b :: rest =>
    if a ≠ Bytes.hyphen then .plain (a :: b :: rest)
    else if b ≠ Bytes.hyphen then .letters (b :: rest)
    else if rest = [] then .divider
    else match rest.dropWhile (· ≠ Bytes.equals) with
      | [] => .named rest none
      | _ :: value => .named (rest.takeWhile (· ≠ Bytes.equals)) (some value)
  | bs => .plain bs

/-! ## Reading -/

namespace Invocation

/-- A switch turned on. -/
def turnOn (i : Invocation) : Switch → Except Stop Invocation
  | .check =>
    if i.check then .error (.misuse (.repeatedSwitch .check)) else .ok { i with check := true }
  | .failFast =>
    if i.failFast then .error (.misuse (.repeatedSwitch .failFast))
    else .ok { i with failFast := true }
  | .skipSelfTest =>
    if i.skipSelfTest then .error (.misuse (.repeatedSwitch .skipSelfTest))
    else .ok { i with skipSelfTest := true }
  | .verbose => .ok { i with verbose := min 255 (i.verbose + 1) }
  | .quiet => .ok { i with quiet := min 255 (i.quiet + 1) }
  | .help => .error .help
  | .version => .error .version

/-- The parameter has a value. -/
def has (i : Invocation) : Parameter → Bool
  | .coding => i.coding.isSome
  | .configFile => i.configFile.isSome
  | .report => i.report.isSome
  | .directory => i.directory.isSome

/-- The value of a parameter put in its place. -/
def put (i : Invocation) (p : Parameter) (value : Bytes) : Except UsageError Invocation :=
  match p with
  | .coding => match Utf8.decode? value with
    | some text => .ok { i with coding := some text }
    | none => .error .notText
  | .configFile =>
    if value = [] then .error (.valueRequired p) else .ok { i with configFile := some ⟨value⟩ }
  | .report =>
    if value = [] then .error (.valueRequired p)
    else match (Utf8.decode? value).bind ReportFormat.ofName? with
      | some format => .ok { i with report := some format }
      | none => .error (.invalidValue (Utf8.display value) p)
  | .directory =>
    if value = [] then .error (.valueRequired p) else .ok { i with directory := some ⟨value⟩ }

/-- A parameter settled with a value, if it has none so far. -/
def settle (i : Invocation) (p : Parameter) (value : Bytes) : Except Stop Invocation :=
  if i.has p then .error (.misuse (.repeatedParameter p))
  else (i.put p value).mapError .misuse

end Invocation

/-- **A command line read up to some word**: what it asks for so far, and the parameter that is not
settled, with its value once there is one. -/
structure Reading where
  /-- What is settled. -/
  invocation : Invocation := {}
  /-- What is not. -/
  pending : Option (Parameter × Option Bytes) := none
  deriving DecidableEq, Repr

namespace Reading

/-- What the command line asks for, with all settled. -/
def settled (r : Reading) : Except Stop Invocation :=
  match r.pending with
  | none => .ok r.invocation
  | some (p, none) => .error (.misuse (.valueRequired p))
  | some (p, some value) => r.invocation.settle p value

/-- The directory has been given. -/
def hasDirectory (r : Reading) : Bool :=
  r.invocation.has .directory || r.pending.any fun pending => pending.1 == .directory

/-- A parameter by its name, with or without a value. -/
def parameter (r : Reading) (p : Parameter) (value : Option Bytes) : Except Stop Reading := do
  let i ← r.settled
  match value with
  | none => pure ⟨i, some (p, none)⟩
  | some v => pure ⟨← i.settle p v, none⟩

/-- A switch. -/
def switch (r : Reading) (s : Switch) : Except Stop Reading := do
  pure ⟨← (← r.settled).turnOn s, none⟩

/-- A word with a name. -/
def named (r : Reading) (name : Bytes) (value : Option Bytes) : Except Stop Reading :=
  match (Utf8.decode? name).bind Parameter.ofName?, (Utf8.decode? name).bind Switch.ofName? with
  | some p, _ => r.parameter p value
  | none, some s => match value with
    | some v => .error (.misuse (.unexpectedValue (Utf8.display v) s))
    | none => r.switch s
  | none, none => .error (.misuse (.unexpectedArgument ("--" ++ Utf8.display name)))

/-- A cluster of letters. -/
def letters (r : Reading) : List Utf8.Piece → Except Stop Reading
  | [] => .ok r
  | .char c :: rest => match Switch.ofLetter? c with
    | some s => do (← r.switch s).letters rest
    | none => .error (.misuse (.unexpectedArgument ("-" ++ c.toString)))
  | piece :: rest => .error (.misuse (.unexpectedArgument ("-" ++ Utf8.shown (piece :: rest))))

/-- A word by itself as the directory. -/
def directory (r : Reading) (text : Bytes) : Except Stop Reading :=
  if r.hasDirectory then .error (.misuse (.unexpectedArgument (Utf8.display text)))
  else do pure ⟨← r.settled, some (.directory, some text)⟩

/-- A word by itself: a value if one is awaited. -/
def plain (r : Reading) (text : Bytes) : Except Stop Reading :=
  match r.pending with
  | some (p, none) => .ok { r with pending := some (p, some text) }
  | _ => r.directory text

/-- The words that are left. -/
def finish (r : Reading) : List Bytes → Except Stop Invocation
  | [] => r.settled
  | word :: rest => match Word.ofBytes word with
    -- a parameter that awaits its value at the divider does not get one
    | .divider => do (← rest.foldlM directory r).settled
    | .named name value => do (← r.named name value).finish rest
    | .letters cluster => do (← r.letters (Utf8.pieces cluster)).finish rest
    | .plain text => do (← r.plain text).finish rest

end Reading

/-- **What a command line asks for.** -/
def Invocation.read (words : List Bytes) : Except Stop Invocation := Reading.finish {} words

end SourceCoding
