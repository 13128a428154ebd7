import SourceCoding.Event

/-!
# Sessions

A command works in a session: a file tree, a working directory and the events so far. Its parts
are actions on a session. An action that fails keeps what it did before it failed.

## Main definitions

* `Session`: the state a command works on
* `Act`: an action that may fail
* `emit`, `emitAll`: further events
* `Act.runIn`, `Act.attempt`: the result of an action, as the end or on the way
* `Act.query`, `Act.change`: a look at the tree, an operation on it that becomes an event
-/

namespace SourceCoding

/-- **The state a command works on.** -/
structure Session where
  /-- The files. -/
  tree : Tree
  /-- The directory in which relative paths start. -/
  cwd : Location := []
  /-- What has happened so far, first to last. -/
  events : List Event := []

/-- **An action that may fail**; what was done before a failure stays done. -/
abbrev Act (ε α : Type) := ExceptT ε (StateM Session) α

/-- Some events more. -/
def emitAll {ε : Type} (es : List Event) : Act ε Unit :=
  modify fun s => { s with events := s.events ++ es }

/-- One event more. -/
def emit {ε : Type} (e : Event) : Act ε Unit := emitAll [e]

namespace Act

variable {ε α : Type}

/-- What a look at the tree says; a refusal becomes the failure of the action. -/
def query (ask : Tree → Location → Except SystemError α) (failure : SystemError → ε) :
    Act ε α := do
  let s ← get
  match ask s.tree s.cwd with
  | .ok a => pure a
  | .error e => throw (failure e)

/-- The tree after an operation; a refusal becomes the failure of the action. -/
def change (operation : Operation) (failure : SystemError → ε) : Act ε Unit := do
  let s ← get
  match s.tree.perform s.cwd operation with
  | .ok t => set { s with tree := t, events := s.events ++ [Event.changed operation] }
  | .error e => throw (failure e)

/-- The result of an action and the session after it. -/
def runIn (a : Act ε α) (s : Session) : Except ε α × Session := Id.run ((ExceptT.run a).run s)

/-- An action whose failure becomes a value, so that another action can go on after it. -/
def attempt {δ : Type} (a : Act ε α) : Act δ (Except ε α) := fun s =>
  let (result, s') := a.runIn s
  (.ok result, s')

end Act

end SourceCoding
