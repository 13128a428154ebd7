import SourceCoding.Proofs.TomlValue

/-!
# TOML statements read back

A record is written as lines, and a list of rows as tables after them. Each line is read as the
statement that it was written for: the line of a field as an assignment, and the first lines of a
table as its header. A name is read as a key up to what cannot belong to it, so it has to consist of
what may stand in a key without quotes.

## Main definitions

* `Toml.IsKey`: a name that needs no quotes
* `Record.Tabular`: a record that a TOML document can hold
* `Toml.statementsOf`: the statements of a field
* `Toml.Yields`: a text is read as a list of statements

## Main results

* `Toml.statement_line`, `Toml.statement_header`: a line is read as its statement
* `Toml.statements_document`: the statements of a document
-/

namespace SourceCoding

/-- Rows that are written as tables. -/
def Datum.IsTables : Datum → Prop
  | .rows (_ :: _) => True
  | _ => False

namespace Toml

variable {name : String} {v : Value} {c : Char} {cs rest written : List Char} {ss : List Statement}

/-- **A name that needs no quotes** as a key. -/
def IsKey (name : String) : Prop := name.toList ≠ [] ∧ name.toList.all isKeyChar = true

instance (name : String) : Decidable (IsKey name) := inferInstanceAs (Decidable (_ ∧ _))

theorem IsKey.isKeyChar (h : IsKey name) : ∀ c ∈ name.toList, isKeyChar c = true :=
  List.all_eq_true.1 h.2

/-! ## Statements -/

/-- A character of a key is none that cannot stand in one. -/
theorem isKeyChar_ne {d : Char} (h : isKeyChar c = true) (hd : isKeyChar d = false) : c ≠ d := by
  rintro rfl
  simp [h] at hd

theorem isBlank_of_isKeyChar (h : isKeyChar c = true) : isBlank c = false := by
  simp [isBlank, isKeyChar_ne h (show isKeyChar ' ' = false by decide),
    isKeyChar_ne h (show isKeyChar '\t' = false by decide)]

theorem keyPart_cons (h : isKeyChar c = true) : keyPart (c :: cs) =
    some (String.ofList ((c :: cs).takeWhile isKeyChar), (c :: cs).dropWhile isKeyChar) := by
  rw [keyPart.eq_def]
  split
  · rename_i heq
    obtain rfl := (List.cons.inj heq).1
    cases h
  · rename_i heq
    obtain rfl := (List.cons.inj heq).1
    cases h
  · simp [h]

/-- **A name is read as the key that it is**, up to what cannot belong to it. -/
theorem key_name (hname : IsKey name) (hc : isKeyChar c = false) (rest : List Char)
    (hdot : ∀ more, skipBlanks (c :: rest) ≠ '.' :: more) :
    key (name.toList ++ c :: rest) = some (([], name), skipBlanks (c :: rest)) := by
  have hpart : keyPart (skipBlanks (name.toList ++ c :: rest)) = some (name, c :: rest) := by
    have htake : (name.toList ++ c :: rest).takeWhile isKeyChar = name.toList := by
      rw [List.takeWhile_append_of_pos hname.isKeyChar]
      simp [hc]
    have hdrop : (name.toList ++ c :: rest).dropWhile isKeyChar = c :: rest := by
      rw [List.dropWhile_append_of_pos hname.isKeyChar]
      simp [hc]
    obtain ⟨d, ds, hd⟩ := List.exists_cons_of_ne_nil hname.1
    have hkey := hname.isKeyChar d (by simp [hd])
    have hfirst : name.toList ++ c :: rest = d :: (ds ++ c :: rest) := by rw [hd, List.cons_append]
    rw [hfirst, skipBlanks_cons (isBlank_of_isKeyChar hkey), keyPart_cons hkey, ← hfirst, htake,
      hdrop, String.ofList_toList]
  have hmore : moreKeyParts ((c :: rest).length + 1) (c :: rest) =
      some ([], skipBlanks (c :: rest)) := by
    rw [moreKeyParts]
    split
    · rename_i more heq
      exact absurd heq (hdot more)
    · rfl
  rw [key, hpart]
  exact congrArg (Option.bind · _) hmore

theorem statement_cons (h : isKeyChar c = true) : statement (c :: cs) =
    (assignment (some ∘ skipBlanks) (value depthLimit) (c :: cs)).map fun ((path, name, v), rest) =>
      (.assign path name v, rest) := by
  rw [statement.eq_def]
  split
  · rename_i heq
    obtain rfl := (List.cons.inj heq).1
    cases h
  · rfl

/-- **The line of a field is read as an assignment.** -/
theorem statement_line (hname : IsKey name) (hv : ReadsAs written v) (rest : List Char) :
    statement (line name written ++ rest) = some (.assign [] name v, '\n' :: rest) := by
  have hkey := key_name (c := ' ') hname (by decide) ('=' :: ' ' :: (written ++ '\n' :: rest))
    (by simp [skipBlanks, isBlank])
  have hequals : skipBlanks ('=' :: ' ' :: (written ++ '\n' :: rest)) =
      '=' :: ' ' :: (written ++ '\n' :: rest) := skipBlanks_cons (by decide)
  have hafter : skipBlanks (' ' :: '=' :: ' ' :: (written ++ '\n' :: rest)) =
      '=' :: ' ' :: (written ++ '\n' :: rest) := by
    simp [skipBlanks, isBlank]
  have hblank : skipBlanks (' ' :: (written ++ '\n' :: rest)) =
      skipBlanks (written ++ '\n' :: rest) := by
    simp [skipBlanks, isBlank]
  have hline : line name written ++ rest =
      name.toList ++ ' ' :: '=' :: ' ' :: (written ++ '\n' :: rest) := by
    simp [line]
  obtain ⟨d, ds, hd⟩ := List.exists_cons_of_ne_nil hname.1
  have hfirst := hname.isKeyChar d (by simp [hd])
  rw [hline, hd, List.cons_append, statement_cons hfirst, ← List.cons_append, ← hd, assignment,
    hkey, hafter]
  simp [hequals, hblank, hv rest]

/-- **The header of a table is read as such.** -/
theorem statement_header (hname : IsKey name) (rest : List Char) :
    statement ("[[".toList ++ name.toList ++ "]]".toList ++ rest) =
      some (.openItem [] name, rest) := by
  have hkey := key_name (c := ']') hname (by decide) (']' :: rest) (by simp [skipBlanks, isBlank])
  have hafter : skipBlanks (']' :: ']' :: rest) = ']' :: ']' :: rest := skipBlanks_cons (by decide)
  have hwritten : "[[".toList ++ name.toList ++ "]]".toList ++ rest =
      '[' :: '[' :: (name.toList ++ ']' :: ']' :: rest) := by
    simp
  rw [hwritten, statement, header, hkey, hafter]
  simp [hafter]

/-! ## The statements of a document -/

/-- **A text is read as a list of statements.** -/
def Yields (cs : List Char) (ss : List Statement) : Prop :=
  ∀ fuel, cs.length < fuel → statementsFrom fuel cs = some ss

theorem yields_nil : Yields [] [] := by
  intro fuel hfuel
  obtain ⟨fuel, rfl⟩ : ∃ m, fuel = m + 1 := ⟨fuel - 1, by omega⟩
  rw [statementsFrom, skipTrivia]
  rfl

/-- A statement that ends with its line, before others. -/
theorem Yields.cons {s : Statement} (hskip : skipTrivia false cs = some (c :: written))
    (hs : statement (c :: written) = some (s, '\n' :: rest)) (hlength : rest.length < cs.length)
    (h : Yields rest ss) : Yields cs (s :: ss) := by
  intro fuel hfuel
  obtain ⟨fuel, rfl⟩ : ∃ m, fuel = m + 1 := ⟨fuel - 1, by omega⟩
  have hend : endLine false ('\n' :: rest) = some rest := by
    rw [endLine.eq_def]
    simp
  rw [statementsFrom, hskip]
  simp only [Option.bind_eq_bind, Option.bind_some, hs, hend, h fuel (by omega)]

/-- The line of a field. -/
theorem Yields.line (hname : IsKey name) (hv : ReadsAs written v) (h : Yields rest ss) :
    Yields (line name written ++ rest) (.assign [] name v :: ss) := by
  obtain ⟨d, ds, hd⟩ := List.exists_cons_of_ne_nil hname.1
  have hkey := hname.isKeyChar d (by simp [hd])
  have hfirst : Toml.line name written ++ rest =
      d :: (ds ++ [' ', '=', ' '] ++ written ++ ['\n'] ++ rest) := by
    simp [Toml.line, hd]
  refine .cons (c := d) ?_ (hfirst ▸ statement_line hname hv rest) ?_ h
  · rw [hfirst]
    exact skipTrivia_cons (isBlank_of_isKeyChar hkey) ⟨isKeyChar_ne hkey (by decide),
      isKeyChar_ne hkey (by decide), isKeyChar_ne hkey (by decide)⟩
  · simp [Toml.line]
    omega

/-- The header of a table, after an empty line. -/
theorem Yields.header (hname : IsKey name) (h : Yields rest ss) :
    Yields ('\n' :: ("[[".toList ++ name.toList ++ "]]\n".toList ++ rest))
      (.openItem [] name :: ss) := by
  refine .cons (c := '[') ?_ (statement_header hname ('\n' :: rest)) ?_ h
  · have hwritten : "[[".toList ++ name.toList ++ "]]\n".toList ++ rest =
        "[[".toList ++ name.toList ++ "]]".toList ++ '\n' :: rest := by
      simp
    rw [skipTrivia_line, hwritten]
    exact skipTrivia_cons (by decide) (by decide)
  · simp
    omega

/-- The statement of a field of a row. -/
def rowStatement (f : String × String) : Statement := .assign [] f.1 (.text f.2)

/-- The statements of a row that is written as a table. -/
def tableStatements (name : String) (row : List (String × String)) : List Statement :=
  .openItem [] name :: row.map rowStatement

/-- **The statements of a field.** -/
def statementsOf (f : String × Datum) : List Statement :=
  match f.2 with
  | .rows (row :: rows) => (row :: rows).flatMap (tableStatements f.1)
  | d => [.assign [] f.1 d.tomlValue]

/-- The lines of a table. -/
theorem Yields.table {row : List (String × String)} (hname : IsKey name)
    (hkeys : ∀ f ∈ row, IsKey f.1) (h : Yields rest ss) :
    Yields (tableLines name row ++ rest) (tableStatements name row ++ ss) := by
  have hrow : Yields ((row.flatMap fun f => Toml.line f.1 (string f.2)) ++ rest)
      (row.map rowStatement ++ ss) := by
    induction row with
    | nil => exact h
    | cons f row ih =>
      rw [List.flatMap_cons, List.append_assoc, List.map_cons, List.cons_append]
      exact .line (hkeys f List.mem_cons_self) (readsAs_text f.2)
        (ih fun g hg => hkeys g (List.mem_cons_of_mem _ hg))
  simpa [tableLines, tableStatements] using hrow.header hname

/-- The lines of a list of tables. -/
theorem Yields.tables {rows : List (List (String × String))} (hname : IsKey name)
    (hkeys : ∀ row ∈ rows, ∀ f ∈ row, IsKey f.1) (h : Yields rest ss) :
    Yields (rows.flatMap (tableLines name) ++ rest)
      (rows.flatMap (tableStatements name) ++ ss) := by
  induction rows with
  | nil => exact h
  | cons row rows ih =>
    rw [List.flatMap_cons, List.append_assoc, List.flatMap_cons, List.append_assoc]
    exact .table hname (hkeys row List.mem_cons_self)
      (ih fun r hr => hkeys r (List.mem_cons_of_mem _ hr))

/-- A datum that a TOML document can hold: numbers are in the range of all readers, and the names in
a row need no quotes and are different. -/
def Fits : Datum → Prop
  | .count value => value < Nat.pow 2 63
  | .rows values => ∀ row ∈ values, (∀ f ∈ row, IsKey f.1) ∧ (row.map Prod.fst).Nodup
  | _ => True

/-- **The lines of a field.** -/
theorem Yields.field {f : String × Datum} (hname : IsKey f.1) (hfits : Fits f.2)
    (h : Yields rest ss) : Yields (fieldLines f.1 f.2 ++ rest) (statementsOf f ++ ss) := by
  obtain ⟨name, d⟩ := f
  cases d with
  | flag value => exact .line hname (readsAs_flag value) h
  | count value => exact .line hname (readsAs_count hfits) h
  | text value => exact .line hname (readsAs_text value) h
  | texts values => exact .line hname (readsAs_texts values) h
  | rows values =>
    cases values with
    | nil => exact .line hname readsAs_rows h
    | cons row rows => exact .tables hname (fun r hr => (hfits r hr).1) h

end Toml

/-- **A record that a TOML document can hold.** Names need no quotes and are different, and rows
come last, since their tables take up all that follows. -/
structure Record.Tabular (r : Record) : Prop where
  /-- Names need no quotes. -/
  keys : ∀ f ∈ r, Toml.IsKey f.1
  /-- Names are different. -/
  distinct : (r.map Prod.fst).Nodup
  /-- The document can hold the data. -/
  fits : ∀ f ∈ r, Toml.Fits f.2
  /-- Rows come last. -/
  rowsLast : r.Pairwise fun f g => f.2.IsTables → g.2.IsTables

namespace Toml

variable {r : Record}

/-- **The statements of a document.** -/
theorem yields_document (hkeys : ∀ f ∈ r, IsKey f.1) (hfits : ∀ f ∈ r, Fits f.2) :
    Yields (r.flatMap fun (name, value) => fieldLines name value) (r.flatMap statementsOf) := by
  induction r with
  | nil => exact yields_nil
  | cons f r ih =>
    rw [List.flatMap_cons, List.flatMap_cons]
    exact .field (hkeys f List.mem_cons_self) (hfits f List.mem_cons_self)
      (ih (fun g hg => hkeys g (List.mem_cons_of_mem _ hg))
        fun g hg => hfits g (List.mem_cons_of_mem _ hg))

/-- What is written for a field starts with no byte order mark. -/
theorem fieldLines_ne {f : String × Datum} (hname : IsKey f.1) (rest more : List Char) :
    fieldLines f.1 f.2 ++ rest ≠ '\uFEFF' :: more := by
  have hline : ∀ written, line f.1 written ++ rest ≠ '\uFEFF' :: more := by
    intro written heq
    obtain ⟨d, ds, hd⟩ := List.exists_cons_of_ne_nil hname.1
    have hkey := hname.isKeyChar d (by simp [hd])
    refine isKeyChar_ne hkey (show isKeyChar '\uFEFF' = false by decide) ?_
    simp only [line, hd, List.cons_append] at heq
    exact (List.cons.inj heq).1
  obtain ⟨name, d⟩ := f
  cases d with
  | flag value => exact hline _
  | count value => exact hline _
  | text value => exact hline _
  | texts values => exact hline _
  | rows values =>
    cases values with
    | nil => exact hline _
    | cons row rows => simp [fieldLines, tableLines]

/-- **The statements of a document.** -/
theorem statements_document (h : r.Tabular) :
    statements (document r) = some (r.flatMap statementsOf) := by
  have hyields := yields_document h.keys h.fits
  rw [statements, document, String.toList_ofList]
  split
  · rename_i more heq
    cases r with
    | nil => cases heq
    | cons f r => exact absurd heq (fieldLines_ne (h.keys f List.mem_cons_self) _ more)
  · exact hyields _ (Nat.lt_succ_self _)

end Toml

end SourceCoding
