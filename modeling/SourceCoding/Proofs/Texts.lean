import Mathlib.Tactic.Common
import SourceCoding.Report

/-!
# Paths as text

A byte string is cut into pieces without a loss: the UTF-8 forms of the characters and the broken
pieces, put together again, are the byte string. And the UTF-8 form of a character is not cut. So a
path is text just if it is the UTF-8 form of a text, and the record of a summary says all that the
summary says.

## Main definitions

* `Utf8.Piece.bytes`: the bytes of a piece
* `Summary.paths`, `Summary.Textual`: the paths of a summary, and that all of them are text

## Main results

* `Utf8.flatMap_bytes_pieces`: nothing is lost at the cuts
* `Utf8.pieces_encode`: the UTF-8 form of a character is one piece
* `Path.isSome_text?_iff`: a path is text just if it is the UTF-8 form of one
* `Path.ofString_display`: a path that is text is the UTF-8 form of this text
* `Summary.isSome_record?`, `Summary.record?_of_textual`: when a summary has a record, and which
-/

namespace SourceCoding

/-! ## What a partial function makes of a list -/

theorem mapM_eq_some_iff {α β : Type} {f : α → Option β} {xs : List α} {ys : List β} :
    xs.mapM f = some ys ↔ xs.map f = ys.map some := by
  induction xs generalizing ys with
  | nil => cases ys <;> simp
  | cons x xs ih =>
    cases ys with
    | nil => cases hx : f x <;> cases hxs : xs.mapM f <;> simp [hx, hxs]
    | cons y ys =>
      rw [List.map_cons, List.map_cons, List.cons.injEq, ← ih]
      cases hx : f x <;> cases hxs : xs.mapM f <;> simp [hx, hxs]

theorem isSome_mapM {α β : Type} {f : α → Option β} {xs : List α} :
    (xs.mapM f).isSome ↔ ∀ x ∈ xs, (f x).isSome := by
  induction xs with
  | nil => simp
  | cons x xs ih =>
    rw [List.forall_mem_cons, ← ih]
    cases hx : f x <;> cases hxs : xs.mapM f <;> simp [hx, hxs]

namespace Utf8

/-! ## Characters put together -/

/-- The bytes of a piece. -/
def Piece.bytes : Piece → Bytes
  | .char c => String.utf8EncodeChar c
  | .broken bs => bs

/-- What is asked of the second byte of a character, by the first one. -/
theorem isSecond_iff {a b : UInt8} : isSecond a b = true ↔
    (0x80 ≤ b.toNat ∧ b.toNat ≤ 0xBF) ∧ (a.toNat = 0xE0 → 0xA0 ≤ b.toNat) ∧
      (a.toNat = 0xED → b.toNat ≤ 0x9F) ∧ (a.toNat = 0xF0 → 0x90 ≤ b.toNat) ∧
      (a.toNat = 0xF4 → b.toNat ≤ 0x8F) := by
  have hne : ∀ n : UInt8, a ≠ n → a.toNat ≠ n.toNat := fun n h h' => h (UInt8.toNat_inj.1 h')
  unfold isSecond
  split
  · simp [UInt8.le_iff_toNat_le]
    omega
  · simp [UInt8.le_iff_toNat_le]
    omega
  · simp [UInt8.le_iff_toNat_le]
    omega
  · simp [UInt8.le_iff_toNat_le]
    omega
  · rename_i h₁ h₂ h₃ h₄
    have := hne _ h₁
    have := hne _ h₂
    have := hne _ h₃
    have := hne _ h₄
    simp only [isTail, Bool.and_eq_true, decide_eq_true_eq, UInt8.le_iff_toNat_le]
    simp_all

theorem isTail_iff {b : UInt8} : isTail b = true ↔ 0x80 ≤ b.toNat ∧ b.toNat ≤ 0xBF := by
  simp [isTail, UInt8.le_iff_toNat_le]

theorem val_ofNat {n : Nat} (h : n.isValidChar) : (Char.ofNat n).val.toNat = n := by
  rw [Char.ofNat, dif_pos h]
  rfl

theorem encode_one {a : UInt8} (ha : a.toNat ≤ 0x7F) :
    String.utf8EncodeChar (assemble a.toNat []) = [a] := by
  have hv := val_ofNat (n := a.toNat) (.inl (by omega))
  simp only [String.utf8EncodeChar, assemble, List.foldl_nil, hv, ha, if_true, UInt8.ofNat_toNat]

theorem encode_two {a b : UInt8} (ha : 0xC2 ≤ a.toNat) (ha' : a.toNat ≤ 0xDF)
    (hb : 0x80 ≤ b.toNat ∧ b.toNat ≤ 0xBF) :
    String.utf8EncodeChar (assemble (a.toNat - 0xC0) [b]) = [a, b] := by
  have hv := val_ofNat (n := (a.toNat - 0xC0) * 64 + (b.toNat - 0x80)) (.inl (by omega))
  simp only [String.utf8EncodeChar, assemble, List.foldl_cons, List.foldl_nil, hv]
  rw [if_neg (by omega), if_pos (by omega)]
  simp only [List.cons.injEq, ← UInt8.toNat_inj, UInt8.toNat_ofNat', and_true]
  omega

theorem encode_three {a b c : UInt8} (ha : 0xE0 ≤ a.toNat) (ha' : a.toNat ≤ 0xEF)
    (hb : isSecond a b = true) (hc : 0x80 ≤ c.toNat ∧ c.toNat ≤ 0xBF) :
    String.utf8EncodeChar (assemble (a.toNat - 0xE0) [b, c]) = [a, b, c] := by
  obtain ⟨hb, hlong, hsurrogate, -, -⟩ := isSecond_iff.1 hb
  have hv := val_ofNat (n := ((a.toNat - 0xE0) * 64 + (b.toNat - 0x80)) * 64 + (c.toNat - 0x80))
    (by unfold Nat.isValidChar; omega)
  simp only [String.utf8EncodeChar, assemble, List.foldl_cons, List.foldl_nil, hv]
  rw [if_neg (by omega), if_neg (by omega), if_pos (by omega)]
  simp only [List.cons.injEq, ← UInt8.toNat_inj, UInt8.toNat_ofNat', and_true]
  omega

theorem encode_four {a b c d : UInt8} (ha : 0xF0 ≤ a.toNat) (ha' : a.toNat ≤ 0xF4)
    (hb : isSecond a b = true) (hc : 0x80 ≤ c.toNat ∧ c.toNat ≤ 0xBF)
    (hd : 0x80 ≤ d.toNat ∧ d.toNat ≤ 0xBF) :
    String.utf8EncodeChar (assemble (a.toNat - 0xF0) [b, c, d]) = [a, b, c, d] := by
  obtain ⟨hb, -, -, hlong, hlast⟩ := isSecond_iff.1 hb
  have hv := val_ofNat
    (n := (((a.toNat - 0xF0) * 64 + (b.toNat - 0x80)) * 64 + (c.toNat - 0x80)) * 64 +
      (d.toNat - 0x80)) (by unfold Nat.isValidChar; omega)
  simp only [String.utf8EncodeChar, assemble, List.foldl_cons, List.foldl_nil, hv]
  rw [if_neg (by omega), if_neg (by omega), if_neg (by omega)]
  simp only [List.cons.injEq, ← UInt8.toNat_inj, UInt8.toNat_ofNat', and_true]
  omega

/-- **Nothing is lost at the cuts.** -/
theorem flatMap_bytes_pieces (bs : Bytes) : (pieces bs).flatMap Piece.bytes = bs := by
  -- Broken pieces are bytes as they stand, so what remains are characters of one to four bytes.
  fun_induction pieces bs <;> try (simp_all [Piece.bytes]; done)
  case case2 a rest ha ih =>
    rw [List.flatMap_cons, ih, Piece.bytes, encode_one (UInt8.le_iff_toNat_le.1 ha)]
    rfl
  case case6 a hone hlead b rest hb htwo ih =>
    simp only [UInt8.le_iff_toNat_le, UInt8.lt_iff_toNat_lt, Bool.or_eq_true, decide_eq_true_eq,
      Bool.not_eq_true', Bool.not_eq_false, not_or, Nat.not_lt] at hlead hb htwo
    rw [List.flatMap_cons, ih, Piece.bytes, encode_two hlead.1 htwo (isSecond_iff.1 hb).1]
    rfl
  case case9 a hone hlead b hb htwo c rest hc hthree ih =>
    simp only [UInt8.le_iff_toNat_le, Bool.not_eq_true', Bool.not_eq_false, Nat.not_le]
      at hb htwo hc hthree
    rw [List.flatMap_cons, ih, Piece.bytes, encode_three htwo hthree hb (isTail_iff.1 hc)]
    rfl
  case case12 a hone hlead b hb htwo c hc hthree d rest hd ih =>
    simp only [UInt8.le_iff_toNat_le, UInt8.lt_iff_toNat_lt, Bool.or_eq_true, decide_eq_true_eq,
      Bool.not_eq_true', Bool.not_eq_false, not_or, Nat.not_lt,
      Nat.not_le] at hlead hb hc hthree hd
    rw [List.flatMap_cons, ih, Piece.bytes,
      encode_four hthree hlead.2 hb (isTail_iff.1 hc) (isTail_iff.1 hd)]
    rfl

/-- Pieces that are all characters are these characters. -/
theorem eq_map_char {ps : List Piece} {cs : List Char} (h : ps.map Piece.char? = cs.map some) :
    ps = cs.map .char := by
  induction ps generalizing cs with
  | nil => simpa using h.symm
  | cons p ps ih =>
    cases cs with
    | nil => simp at h
    | cons c cs =>
      rw [List.map_cons, List.map_cons, List.cons.injEq] at h
      cases p with
      | broken bs => cases h.1
      | char c' =>
        obtain rfl := Option.some.inj h.1
        rw [ih h.2, List.map_cons]

/-! ## Characters taken apart -/

section

variable {a b c d : UInt8} {rest : Bytes}

theorem pieces_one (ha : a.toNat ≤ 0x7F) :
    pieces (a :: rest) = .char (assemble a.toNat []) :: pieces rest := by
  rw [pieces.eq_def]
  exact if_pos (UInt8.le_iff_toNat_le.2 ha)

/-- A byte above a bound. -/
theorem not_le_of_lt_toNat {k : UInt8} (h : k.toNat < a.toNat) : ¬ a ≤ k :=
  fun hle => Nat.not_le.2 h (UInt8.le_iff_toNat_le.1 hle)

/-- The first byte of a character of several bytes. -/
theorem not_outside (ha : 0xC2 ≤ a.toNat) (ha' : a.toNat ≤ 0xF4) :
    ¬ (decide (a < 0xC2) || decide (0xF4 < a)) = true := by
  simp [UInt8.lt_iff_toNat_lt]
  omega

theorem pieces_two (ha : 0xC2 ≤ a.toNat) (ha' : a.toNat ≤ 0xDF) (hb : isSecond a b = true) :
    pieces (a :: b :: rest) = .char (assemble (a.toNat - 0xC0) [b]) :: pieces rest := by
  have hone : ¬ a ≤ 0x7F := not_le_of_lt_toNat (show 0x7F < a.toNat by omega)
  have htwo : a ≤ 0xDF := UInt8.le_iff_toNat_le.2 ha'
  rw [pieces.eq_def]
  dsimp only
  rw [if_neg hone, if_neg (not_outside ha (by omega))]
  simp [hb, htwo]

theorem pieces_three (ha : 0xE0 ≤ a.toNat) (ha' : a.toNat ≤ 0xEF) (hb : isSecond a b = true)
    (hc : isTail c = true) :
    pieces (a :: b :: c :: rest) = .char (assemble (a.toNat - 0xE0) [b, c]) :: pieces rest := by
  have hone : ¬ a ≤ 0x7F := not_le_of_lt_toNat (show 0x7F < a.toNat by omega)
  have htwo : ¬ a ≤ 0xDF := not_le_of_lt_toNat (show 0xDF < a.toNat by omega)
  have hthree : a ≤ 0xEF := UInt8.le_iff_toNat_le.2 ha'
  rw [pieces.eq_def]
  dsimp only
  rw [if_neg hone, if_neg (not_outside (by omega) (by omega))]
  simp [hb, hc, htwo, hthree]

theorem pieces_four (ha : 0xF0 ≤ a.toNat) (ha' : a.toNat ≤ 0xF4) (hb : isSecond a b = true)
    (hc : isTail c = true) (hd : isTail d = true) :
    pieces (a :: b :: c :: d :: rest) =
      .char (assemble (a.toNat - 0xF0) [b, c, d]) :: pieces rest := by
  have hone : ¬ a ≤ 0x7F := not_le_of_lt_toNat (show 0x7F < a.toNat by omega)
  have htwo : ¬ a ≤ 0xDF := not_le_of_lt_toNat (show 0xDF < a.toNat by omega)
  have hthree : ¬ a ≤ 0xEF := not_le_of_lt_toNat (show 0xEF < a.toNat by omega)
  rw [pieces.eq_def]
  dsimp only
  rw [if_neg hone, if_neg (not_outside (by omega) ha')]
  simp [hb, hc, hd, htwo, hthree]

theorem assemble_eq {lead : Nat} {tails : List UInt8} {c : Char}
    (h : tails.foldl (fun n b => n * 64 + (b.toNat - 0x80)) lead = c.toNat) :
    assemble lead tails = c := by
  rw [assemble, h, Char.ofNat_toNat]

theorem toNat_ofNat {n : Nat} (h : n < 256) : (UInt8.ofNat n).toNat = n :=
  UInt8.toNat_ofNat_of_lt' h

theorem isTail_ofNat {n : Nat} (h : n < 64) : isTail (UInt8.ofNat (n + 128)) = true := by
  rw [isTail_iff, toNat_ofNat (by omega)]
  omega

/-- **The UTF-8 form of a character is one piece**, that character. -/
theorem pieces_encode (c : Char) (rest : Bytes) :
    pieces (String.utf8EncodeChar c ++ rest) = .char c :: pieces rest := by
  have hvalid : c.toNat.isValidChar := c.valid
  have hval : c.val.toNat = c.toNat := rfl
  unfold Nat.isValidChar at hvalid
  simp only [String.utf8EncodeChar, hval]
  generalize hv : c.toNat = v at hvalid ⊢
  split_ifs with hone htwo hthree <;> simp only [List.cons_append, List.nil_append]
  · have ha := toNat_ofNat (n := v) (by omega)
    rw [pieces_one (by omega), assemble_eq]
    exact ha.trans hv.symm
  · have ha := toNat_ofNat (n := v / 64 % 32 + 192) (by omega)
    have hb := toNat_ofNat (n := v % 64 + 128) (by omega)
    rw [pieces_two (by omega) (by omega) (isSecond_iff.2 (by omega)), assemble_eq]
    simp only [List.foldl_cons, List.foldl_nil, ha, hb]
    omega
  · have ha := toNat_ofNat (n := v / 4096 % 16 + 224) (by omega)
    have hb := toNat_ofNat (n := v / 64 % 64 + 128) (by omega)
    have hc := toNat_ofNat (n := v % 64 + 128) (by omega)
    rw [pieces_three (by omega) (by omega) (isSecond_iff.2 (by omega)) (isTail_ofNat (by omega)),
      assemble_eq]
    simp only [List.foldl_cons, List.foldl_nil, ha, hb, hc]
    omega
  · have ha := toNat_ofNat (n := v / 262144 % 8 + 240) (by omega)
    have hb := toNat_ofNat (n := v / 4096 % 64 + 128) (by omega)
    have hc := toNat_ofNat (n := v / 64 % 64 + 128) (by omega)
    have hd := toNat_ofNat (n := v % 64 + 128) (by omega)
    rw [pieces_four (by omega) (by omega) (isSecond_iff.2 (by omega)) (isTail_ofNat (by omega))
      (isTail_ofNat (by omega)), assemble_eq]
    simp only [List.foldl_cons, List.foldl_nil, ha, hb, hc, hd]
    omega

end

/-! ## Byte strings and their texts -/

/-- **A byte string is the UTF-8 form of its text.** -/
theorem ofString_of_decode? {bs : Bytes} {text : String} (h : decode? bs = some text) :
    Bytes.ofString text = bs := by
  obtain ⟨cs, hcs, rfl⟩ := Option.map_eq_some_iff.1 h
  rw [Bytes.ofString, String.toList_ofList, ← flatMap_bytes_pieces bs,
    eq_map_char (mapM_eq_some_iff.1 hcs), List.flatMap_map]
  rfl

/-- **A text is that of its UTF-8 form.** -/
theorem decode?_ofString (text : String) : decode? (Bytes.ofString text) = some text := by
  have hpieces : ∀ cs : List Char, pieces (cs.flatMap String.utf8EncodeChar) = cs.map .char := by
    intro cs
    induction cs with
    | nil => rfl
    | cons c cs ih => rw [List.flatMap_cons, pieces_encode, ih, List.map_cons]
  have hchars : (pieces (Bytes.ofString text)).mapM Piece.char? = some text.toList := by
    rw [mapM_eq_some_iff, Bytes.ofString, hpieces, List.map_map]
    rfl
  rw [decode?, hchars, Option.map_some, String.ofList_toList]

end Utf8

namespace Path

variable {p : Path} {ps : List Path}

/-- The text of a path that is text is what messages show of it. -/
theorem text?_eq_display (h : p.text?.isSome) : p.text? = some p.display := by
  obtain ⟨text, ht⟩ := Option.isSome_iff_exists.1 h
  rw [ht, display, Utf8.display_of_decode? ht]

/-- **A path that is text is the UTF-8 form of this text.** -/
theorem ofString_display (h : p.text?.isSome) : ofString p.display = p := by
  rw [ofString, Utf8.ofString_of_decode? (text?_eq_display h)]

/-- **A path is text** just if it is the UTF-8 form of one. -/
theorem isSome_text?_iff : p.text?.isSome ↔ ∃ text, p = ofString text := by
  refine ⟨fun h => ⟨p.display, (ofString_display h).symm⟩, ?_⟩
  rintro ⟨text, rfl⟩
  exact Option.isSome_iff_exists.2 ⟨text, Utf8.decode?_ofString text⟩

theorem mapM_text? (h : ∀ p ∈ ps, p.text?.isSome) :
    ps.mapM text? = some (ps.map display) := by
  rw [mapM_eq_some_iff, List.map_map]
  exact List.map_congr_left fun p hp => text?_eq_display (h p hp)

end Path

/-! ## The record of a summary -/

/-- The row of a source that could not be processed, with its path as messages show it. -/
def SkippedSource.fields (f : SkippedSource) : List (String × String) :=
  [("path", f.path.display), ("error", f.error)]

theorem SkippedSource.row?_eq {f : SkippedSource} (h : f.path.text?.isSome) :
    f.row? = some f.fields := by
  rw [row?, Path.text?_eq_display h]
  rfl

theorem SkippedSource.isSome_row? (f : SkippedSource) : f.row?.isSome = f.path.text?.isSome := by
  unfold row?
  cases f.path.text? <;> rfl

namespace Summary

/-- The paths of a summary. -/
def paths (S : Summary) : List Path :=
  S.root :: (S.patched ++ S.nonCompliant ++ S.recovered ++ S.pendingBackups ++
    S.failures.map SkippedSource.path)

/-- **All paths of a summary are text.** -/
def Textual (S : Summary) : Prop := ∀ p ∈ S.paths, p.text?.isSome

instance (S : Summary) : Decidable S.Textual := inferInstanceAs (Decidable (∀ p ∈ S.paths, _))

theorem textual_iff {S : Summary} : S.Textual ↔
    S.root.text?.isSome ∧ (∀ p ∈ S.patched, p.text?.isSome) ∧
      (∀ p ∈ S.nonCompliant, p.text?.isSome) ∧ (∀ p ∈ S.recovered, p.text?.isSome) ∧
      (∀ p ∈ S.pendingBackups, p.text?.isSome) ∧ ∀ f ∈ S.failures, f.path.text?.isSome := by
  simp only [Textual, paths, List.forall_mem_cons, List.forall_mem_append, List.forall_mem_map,
    and_assoc]

/-- **The record of a summary** all of whose paths are text. -/
theorem record?_of_textual {S : Summary} (h : S.Textual) : S.record? = some [
    ("root", .text S.root.display),
    ("check_only", .flag S.checkOnly),
    ("files_scanned", .count S.filesScanned),
    ("already_compliant", .count S.alreadyCompliant),
    ("patched", .texts (S.patched.map Path.display)),
    ("non_compliant", .texts (S.nonCompliant.map Path.display)),
    ("recovered", .texts (S.recovered.map Path.display)),
    ("pending_backups", .texts (S.pendingBackups.map Path.display)),
    ("failures", .rows (S.failures.map SkippedSource.fields))] := by
  obtain ⟨hroot, hpatched, hmissing, hrecovered, hpending, hfailures⟩ := textual_iff.1 h
  have hrows : S.failures.mapM SkippedSource.row? = some (S.failures.map SkippedSource.fields) := by
    rw [mapM_eq_some_iff, List.map_map]
    exact List.map_congr_left fun f hf => SkippedSource.row?_eq (hfailures f hf)
  rw [record?, Path.text?_eq_display hroot, Path.mapM_text? hpatched, Path.mapM_text? hmissing,
    Path.mapM_text? hrecovered, Path.mapM_text? hpending, hrows]
  rfl

/-- **A summary has a record** just if all its paths are text. -/
theorem isSome_record? {S : Summary} : S.record?.isSome ↔ S.Textual := by
  refine ⟨fun h => ?_, fun h => by rw [record?_of_textual h]; rfl⟩
  obtain ⟨r, hr⟩ := Option.isSome_iff_exists.1 h
  simp only [record?, Option.bind_eq_bind, Option.bind_eq_some_iff] at hr
  obtain ⟨root, hroot, patched, hpatched, missing, hmissing, recovered, hrecovered, pending,
    hpending, failures, hfailures, -⟩ := hr
  have hmapM : ∀ {ps : List Path} {texts}, ps.mapM Path.text? = some texts →
      ∀ p ∈ ps, p.text?.isSome := fun h => isSome_mapM.1 (by rw [h]; rfl)
  refine textual_iff.2 ⟨by rw [hroot]; rfl, hmapM hpatched, hmapM hmissing, hmapM hrecovered,
    hmapM hpending, fun f hf => ?_⟩
  rw [← SkippedSource.isSome_row?]
  exact isSome_mapM.1 (by rw [hfailures]; rfl) f hf

end Summary

end SourceCoding
