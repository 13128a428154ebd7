import SourceCoding.Text.Utf8

/-!
# Control sequences

A terminal does not show every character of a text: some start a sequence that tells it what to do.
Where no terminal is there to obey, sequences and control characters are left out. White space
inside a sequence interrupts it; what comes after is shown up to the next control character.

## Main definitions

* `Control.State`: where in a sequence a place is
* `Control.State.next`: where the next byte leads
* `Control.shown`: the bytes that are shown
* `withoutControls`: a text without control sequences and control characters
-/

namespace SourceCoding

namespace Control

/-- **Where in a sequence a place is.** -/
inductive State where
  /-- In none. -/
  | outside
  /-- After the escape character. -/
  | escape
  /-- In an escape sequence of more than two characters. -/
  | intermediate
  /-- In the parameters of a control sequence. -/
  | parameters
  /-- In the parameters of a device control string. -/
  | device
  /-- In a string for the terminal, which ends with a string terminator. -/
  | string
  /-- In a command for the system around the terminal, which a bell ends. -/
  | command
  deriving DecidableEq, Repr

namespace State

/-- What the character after the escape character begins. -/
def begin (b : UInt8) : State :=
  if b < 0x20 ∨ 0x7E < b then .escape
  else if b ≤ 0x2F then .intermediate
  else if b = 0x5B then .parameters
  else if b = 0x5D then .command
  else if b = 0x50 then .device
  else if b = 0x58 ∨ b = 0x5E ∨ b = 0x5F then .string
  else .outside

/-- **Where the next byte leads.** Two control characters end every sequence, and the escape
character begins a new one. -/
def next (s : State) (b : UInt8) : State :=
  if b = 0x18 ∨ b = 0x1A then .outside
  else if b = 0x1B then .escape
  else match s with
    | .outside => .outside
    | .escape => begin b
    | .intermediate => if 0x30 ≤ b ∧ b ≤ 0x7E then .outside else .intermediate
    | .parameters => if 0x40 ≤ b ∧ b ≤ 0x7E then .outside else .parameters
    | .device => if 0x40 ≤ b ∧ b ≤ 0x7E then .string else .device
    | .string => if b = 0x9C then .outside else .string
    | .command => if b = 0x07 then .outside else .command

end State

/-- White space among the control characters. -/
def isSpace (b : UInt8) : Bool := b = 0x09 || b = 0x0A || b = 0x0C || b = 0x0D

/-- A byte that begins a character that is shown outside all sequences. -/
def isVisible (b : UInt8) : Bool := (0x20 ≤ b && b ≤ 0x7E) || isSpace b || 0xC0 ≤ b

/-- A byte is shown after others that are not. -/
def startsShowing (s : State) (b : UInt8) : Bool :=
  match s with
  | .outside => isVisible b
  | .escape | .intermediate | .parameters => isSpace b
  | .device | .string | .command => false

/-- A byte is shown after another that is. -/
def continuesShowing (b : UInt8) : Bool := isVisible b || 0x80 ≤ b

/-- **The bytes that are shown**; `showing` tells whether the byte before is. -/
def shown (s : State) (showing : Bool) : Bytes → Bytes
  | [] => []
  | b :: rest =>
    if showing && continuesShowing b then
      b :: shown (if 0x80 ≤ b then .outside else s) true rest
    else if startsShowing s b then
      b :: shown (s.next b) true rest
    else shown (s.next b) false rest

end Control

/-- **A text without control sequences and control characters.** -/
def withoutControls (text : String) : String :=
  Utf8.display (Control.shown .outside false (Bytes.ofString text))

end SourceCoding
