import SourceCoding.Bytes

/-!
# Reading UTF-8

A byte string is cut into characters and broken pieces. A broken piece is as long as possible: the
bytes that still could have started a character, or one byte that never could. A byte string is
text if no piece is broken; for display each broken piece becomes one replacement character.

## Main definitions

* `Utf8.pieces`: the characters and broken pieces of a byte string
* `Utf8.decode?`: the text of a byte string without broken pieces
* `Utf8.display`: the text of any byte string, with replacement characters
-/

namespace SourceCoding.Utf8

/-- A character, or bytes that are none. -/
inductive Piece where
  /-- A well-formed character. -/
  | char (c : Char)
  /-- Bytes that start no character, or break one off. -/
  | broken (bytes : Bytes)
  deriving DecidableEq, Repr

/-- A byte that continues a character. -/
def isTail (b : UInt8) : Bool := 0x80 ≤ b && b ≤ 0xBF

/-- The second byte of a character: a tail that makes the form neither overlong, nor a surrogate,
nor beyond the last code point. -/
def isSecond (a b : UInt8) : Bool :=
  match a with
  | 0xE0 => 0xA0 ≤ b && b ≤ 0xBF
  | 0xED => 0x80 ≤ b && b ≤ 0x9F
  | 0xF0 => 0x90 ≤ b && b ≤ 0xBF
  | 0xF4 => 0x80 ≤ b && b ≤ 0x8F
  | _ => isTail b

/-- The character with a code point in base 64: the bits of the lead byte, then those of the
tails. -/
def assemble (lead : Nat) (tails : List UInt8) : Char :=
  Char.ofNat (tails.foldl (fun n b => n * 64 + (b.toNat - 0x80)) lead)

/-- **The characters and broken pieces** of a byte string, in order. -/
def pieces : Bytes → List Piece
  | [] => []
  | a :: rest =>
    if a ≤ 0x7F then .char (assemble a.toNat []) :: pieces rest
    else if a < 0xC2 || 0xF4 < a then .broken [a] :: pieces rest
    else match rest with
      | [] => [.broken [a]]
      | b :: rest₂ =>
        if !isSecond a b then .broken [a] :: pieces (b :: rest₂)
        else if a ≤ 0xDF then .char (assemble (a.toNat - 0xC0) [b]) :: pieces rest₂
        else match rest₂ with
          | [] => [.broken [a, b]]
          | c :: rest₃ =>
            if !isTail c then .broken [a, b] :: pieces (c :: rest₃)
            else if a ≤ 0xEF then .char (assemble (a.toNat - 0xE0) [b, c]) :: pieces rest₃
            else match rest₃ with
              | [] => [.broken [a, b, c]]
              | d :: rest₄ =>
                if !isTail d then .broken [a, b, c] :: pieces (d :: rest₄)
                else .char (assemble (a.toNat - 0xF0) [b, c, d]) :: pieces rest₄

/-- The character of a piece that is not broken. -/
def Piece.char? : Piece → Option Char
  | .char c => some c
  | .broken _ => none

/-- **The text of a byte string** that is well-formed throughout. -/
def decode? (bs : Bytes) : Option String := ((pieces bs).mapM Piece.char?).map String.ofList

/-- The text shown for pieces: each broken one is one replacement character. -/
def shown (ps : List Piece) : String := String.ofList (ps.map fun p => p.char?.getD '\uFFFD')

/-- **The text shown for a byte string.** -/
def display (bs : Bytes) : String := shown (pieces bs)

/-- A text without broken pieces is shown as it is. -/
theorem display_of_decode? {bs : Bytes} {s : String} (h : decode? bs = some s) :
    display bs = s := by
  obtain ⟨cs, hcs, rfl⟩ := Option.map_eq_some_iff.1 h
  unfold display shown
  congr 1
  clear h
  generalize pieces bs = ps at hcs
  induction ps generalizing cs with
  | nil => simp_all
  | cons p ps ih =>
    cases hp : p.char? with
    | none => simp [hp] at hcs
    | some c =>
      cases hps : ps.mapM Piece.char? with
      | none => simp [hp, hps] at hcs
      | some ds =>
        simp only [List.mapM_cons, hp, hps, Option.pure_def, Option.bind_eq_bind,
          Option.bind_some, Option.some.injEq] at hcs
        subst hcs
        simp [hp, ih ds hps]

end SourceCoding.Utf8
