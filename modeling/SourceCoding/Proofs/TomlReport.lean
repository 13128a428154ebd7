import SourceCoding.Proofs.Texts
import SourceCoding.Proofs.TomlStatements
import SourceCoding.Report

/-!
# TOML reports read back

The statements of a document put the fields of its record together again, one by one: an assignment
adds a field, a header adds a table to those of its name, and the assignments under it fill that
table. So rows have to come last, or a later field would end up in one of their tables. The record
of a summary is of that kind, and its TOML report is read back as the summary.

## Main definitions

* `Toml.Runs`: statements carried out one by one

## Main results

* `Toml.runs_field`, `Toml.runs_record`: what the statements of a field and of a record amount to
* `Toml.read_document`: a document is read back as its record
* `toml_report_reads_back`: a TOML report is read back as the summary
-/

namespace SourceCoding

namespace Toml

variable {name : String} {v : Value} {ss : List Statement} {r : Record}

/-! ## What the statements amount to -/

variable {fields before : Fields} {items : List Fields} {row : Fields} {key : String}

theorem get?_eq_none (h : name ∉ fields.map Prod.fst) : fields.get? name = none := by
  rw [Fields.get?, List.lookup_eq_none_iff]
  rintro f hf
  rw [bne_iff_ne]
  rintro rfl
  exact h (List.mem_map_of_mem hf)

theorem get?_append (h : name ∉ before.map Prod.fst) :
    Fields.get? (before ++ [(name, v)]) name = some v := by
  have hnone : before.lookup name = none := get?_eq_none h
  simp [Fields.get?, List.lookup_append, hnone]

theorem replace_append (h : name ∉ before.map Prod.fst) (w : Value) :
    Fields.replace (before ++ [(name, v)]) name w = before ++ [(name, w)] := by
  have hkept : Fields.replace before name w = before := by
    refine (List.map_congr_left fun f hf => ?_).trans (List.map_id _)
    have hne : f.1 ≠ name := by
      rintro rfl
      exact h (List.mem_map_of_mem hf)
    simp [hne]
  have happend : Fields.replace (before ++ [(name, v)]) name w =
      Fields.replace before name w ++ Fields.replace [(name, v)] name w := List.map_append
  rw [happend, hkept]
  simp [Fields.replace]

theorem add?_eq (h : name ∉ fields.map Prod.fst) (v : Value) :
    fields.add? name v = some (fields ++ [(name, v)]) := by
  simp [Fields.add?, get?_eq_none h]

/-- An assignment before all headers adds a field. -/
theorem run_assign (h : name ∉ fields.map Prod.fst) :
    Statement.run { fields } (.assign [] name v) = some { fields := fields ++ [(name, v)] } := by
  simp [Statement.run, Fields.assign, Fields.alter, add?_eq h]

/-- The first header of a name adds a field with one table. -/
theorem run_openItem_first {d : Draft} (h : name ∉ d.fields.map Prod.fst) :
    Statement.run d (.openItem [] name) =
      some ⟨[name], d.fields ++ [(name, .tables [[]])]⟩ := by
  simp [Statement.run, Fields.openItem, Fields.alter, get?_eq_none h, add?_eq h]

/-- A further header of the name adds a table. -/
theorem run_openItem_further {header : List String} (h : name ∉ before.map Prod.fst) :
    Statement.run ⟨header, before ++ [(name, .tables items)]⟩ (.openItem [] name) =
      some ⟨[name], before ++ [(name, .tables (items ++ [[]]))]⟩ := by
  simp [Statement.run, Fields.openItem, Fields.alter, get?_append h, replace_append h]

/-- An assignment under a header adds a field to the last table of its name. -/
theorem run_assign_item (h : name ∉ before.map Prod.fst) (hkey : key ∉ row.map Prod.fst) :
    Statement.run ⟨[name], before ++ [(name, .tables (items ++ [row]))]⟩ (.assign [] key v) =
      some ⟨[name], before ++ [(name, .tables (items ++ [row ++ [(key, v)]]))]⟩ := by
  simp [Statement.run, Fields.assign, Fields.alter, get?_append h, replace_append h, add?_eq hkey]

/-- **Statements carried out one by one** lead from a draft to another. -/
def Runs (ss : List Statement) (d d' : Draft) : Prop := ss.foldlM Statement.run d = some d'

theorem Runs.nil (d : Draft) : Runs [] d d := rfl

theorem Runs.cons {s : Statement} {d d' d'' : Draft} (hs : s.run d = some d')
    (h : Runs ss d' d'') : Runs (s :: ss) d d'' := by
  rw [Runs, List.foldlM_cons, hs]
  exact h

theorem Runs.append {ss' : List Statement} {d d' d'' : Draft} (h : Runs ss d d')
    (h' : Runs ss' d' d'') : Runs (ss ++ ss') d d'' := by
  rw [Runs, List.foldlM_append, show ss.foldlM Statement.run d = some d' from h]
  exact h'

/-- The fields of a row go into the last table of its name. -/
theorem runs_row {new : List (String × String)} (h : name ∉ before.map Prod.fst)
    (items : List Fields) (row : Fields)
    (hkeys : (row.map Prod.fst ++ new.map Prod.fst).Nodup) :
    Runs (new.map rowStatement) ⟨[name], before ++ [(name, .tables (items ++ [row]))]⟩
      ⟨[name], before ++ [(name, .tables (items ++ [row ++ rowFields new]))]⟩ := by
  induction new generalizing row with
  | nil => simpa [rowFields] using Runs.nil _
  | cons f new ih =>
    have hkey : f.1 ∉ row.map Prod.fst := fun hf =>
      (List.nodup_append.1 hkeys).2.2 _ hf _ List.mem_cons_self rfl
    have hrest := ih (row ++ [(f.1, .text f.2)]) (by simpa using hkeys)
    rw [List.append_assoc] at hrest
    exact .cons (run_assign_item h hkey) hrest

/-- A header adds a table, and the fields of its row go there. -/
theorem runs_table {d : Draft} {new : List (String × String)} (h : name ∉ before.map Prod.fst)
    (items : List Fields)
    (hopen : Statement.run d (.openItem [] name) =
      some ⟨[name], before ++ [(name, .tables (items ++ [[]]))]⟩)
    (hkeys : (new.map Prod.fst).Nodup) :
    Runs (tableStatements name new) d
      ⟨[name], before ++ [(name, .tables (items ++ [rowFields new]))]⟩ :=
  .cons hopen (runs_row h items [] hkeys)

/-- Further tables of a name come after those that are there. -/
theorem runs_tables {rows : List (List (String × String))} (h : name ∉ before.map Prod.fst)
    (items : List Fields) (hkeys : ∀ row ∈ rows, (row.map Prod.fst).Nodup) (header : List String) :
    ∃ header', Runs (rows.flatMap (tableStatements name))
      ⟨header, before ++ [(name, .tables items)]⟩
      ⟨header', before ++ [(name, .tables (items ++ rows.map rowFields))]⟩ := by
  induction rows generalizing items header with
  | nil => exact ⟨header, by simpa using Runs.nil _⟩
  | cons new rows ih =>
    obtain ⟨header', hrows⟩ := ih (items ++ [rowFields new])
      (fun r hr => hkeys r (List.mem_cons_of_mem _ hr)) [name]
    rw [List.append_assoc] at hrows
    exact ⟨header', (runs_table h items (run_openItem_further h)
      (hkeys new List.mem_cons_self)).append hrows⟩

/-- **The statements of a field add that field**, before all headers or by headers of its own. -/
theorem runs_field {d : Draft} {f : String × Datum} (hnew : f.1 ∉ d.fields.map Prod.fst)
    (hfits : Fits f.2) (hheader : d.header = [] ∨ f.2.IsTables) :
    ∃ header, Runs (statementsOf f) d ⟨header, d.fields ++ [(f.1, f.2.tomlValue)]⟩ ∧
      (header = [] ∨ f.2.IsTables) := by
  have hassign : ¬ f.2.IsTables → ∀ v, Runs [.assign [] f.1 v] d ⟨[], d.fields ++ [(f.1, v)]⟩ := by
    intro htables v
    obtain ⟨header, fields⟩ := d
    obtain rfl := hheader.resolve_right htables
    exact .cons (run_assign hnew) (.nil _)
  obtain ⟨name, datum⟩ := f
  cases datum with
  | flag value => exact ⟨[], hassign id _, .inl rfl⟩
  | count value => exact ⟨[], hassign id _, .inl rfl⟩
  | text value => exact ⟨[], hassign id _, .inl rfl⟩
  | texts values => exact ⟨[], hassign id _, .inl rfl⟩
  | rows values =>
    cases values with
    | nil => exact ⟨[], hassign id _, .inl rfl⟩
    | cons new rows =>
      obtain ⟨header, hrows⟩ := runs_tables hnew [rowFields new]
        (fun r hr => (hfits r (List.mem_cons_of_mem _ hr)).2) [name]
      exact ⟨header, (runs_table hnew [] (run_openItem_first hnew)
        (hfits new List.mem_cons_self).2).append hrows, .inr trivial⟩

/-- **The statements of a record add its fields**, one by one. -/
theorem runs_record {d : Draft} (hdistinct : (d.fields.map Prod.fst ++ r.map Prod.fst).Nodup)
    (hfits : ∀ f ∈ r, Fits f.2) (hlast : r.Pairwise fun f g => f.2.IsTables → g.2.IsTables)
    (hheader : d.header = [] ∨ ∀ f ∈ r, f.2.IsTables) :
    ∃ header, Runs (r.flatMap statementsOf) d
      ⟨header, d.fields ++ r.map fun f => (f.1, f.2.tomlValue)⟩ := by
  induction r generalizing d with
  | nil => exact ⟨d.header, by simpa using Runs.nil d⟩
  | cons f r ih =>
    -- Once a field has tables a header is open, but then all that follows has tables as well.
    obtain ⟨hf, hlast⟩ := List.pairwise_cons.1 hlast
    have hnew : f.1 ∉ d.fields.map Prod.fst := fun hmem =>
      (List.nodup_append.1 hdistinct).2.2 _ hmem _ List.mem_cons_self rfl
    obtain ⟨header, hfield, hafter⟩ := runs_field hnew (hfits f List.mem_cons_self)
      (hheader.imp_right fun h => h f List.mem_cons_self)
    obtain ⟨header', hrest⟩ := ih (d := ⟨header, d.fields ++ [(f.1, f.2.tomlValue)]⟩)
      (by simpa using hdistinct) (fun g hg => hfits g (List.mem_cons_of_mem _ hg)) hlast
      (hafter.imp_right fun h g hg => hf g hg h)
    rw [List.append_assoc] at hrest
    exact ⟨header', hfield.append hrest⟩

/-- **A document is read back as its record.** -/
theorem read_document (h : r.Tabular) :
    read (document r) = some (r.map fun f => (f.1, f.2.tomlValue)) := by
  obtain ⟨header, hruns⟩ := runs_record (d := {}) (r := r) (by simpa using h.distinct) h.fits
    h.rowsLast (.inl rfl)
  rw [read, statements_document h]
  simp only [Option.bind_eq_bind, Option.bind_some]
  rw [hruns]
  rfl

end Toml

/-! ## The report of a summary -/

/-- The fields of a row name its path and its error. -/
theorem SkippedSource.fits_fields (failures : List SkippedSource) :
    Toml.Fits (.rows (failures.map SkippedSource.fields)) := by
  have hkeys : ∀ f ∈ ["path", "error"], Toml.IsKey f := by decide
  intro row hrow
  obtain ⟨f, -, rfl⟩ := List.mem_map.1 hrow
  exact ⟨by simpa [fields] using hkeys, by simp [fields]⟩

theorem Datum.tomlValue_failures (failures : List SkippedSource) :
    (Datum.rows (failures.map SkippedSource.fields)).tomlValue =
      if failures = [] then .array [] else .tables (failures.map fun f =>
        [("path", .text f.path.display), ("error", .text f.error)]) := by
  cases failures with
  | nil => rfl
  | cons f failures =>
    rw [if_neg (by simp)]
    simp [tomlValue, Toml.rowFields, SkippedSource.fields]

theorem Summary.report_of_record {S : Summary} {r : Record} (hr : S.record? = some r)
    (styled : Bool) (format : DataFormat) :
    S.report styled (.data format) = .ok (format.document r) := by
  simp only [report, hr]

/-- **The record of a summary** can be held by a TOML document. -/
theorem Summary.tabular {S : Summary} {r : Record} (hr : S.record? = some r)
    (hscanned : S.filesScanned < Nat.pow 2 63) (hcompliant : S.alreadyCompliant < Nat.pow 2 63) :
    r.Tabular := by
  have htext := isSome_record?.1 (by rw [hr]; rfl)
  obtain rfl := Option.some.inj ((record?_of_textual htext).symm.trans hr)
  refine ⟨?_, by simp, ?_, by simp [Datum.IsTables]⟩
  · simp only [List.forall_mem_cons]
    decide
  · simp only [List.forall_mem_cons]
    exact ⟨trivial, trivial, hscanned, hcompliant, trivial, trivial, trivial, trivial,
      SkippedSource.fits_fields S.failures, by simp⟩

/-- **The TOML report of a summary is read back as the summary.** If all its paths are text and its
numbers are in the range, the report can be made, and what is read there are its nine fields with
their values in their order. A path is read as the text that it is the UTF-8 form of. -/
theorem toml_report_reads_back {S : Summary} (styled : Bool) (htext : S.Textual)
    (hscanned : S.filesScanned < Nat.pow 2 63) (hcompliant : S.alreadyCompliant < Nat.pow 2 63) :
    (∃ text, S.report styled (.data .toml) = .ok text ∧ Toml.read text = some [
      ("root", .text S.root.display),
      ("check_only", .boolean S.checkOnly),
      ("files_scanned", .integer S.filesScanned),
      ("already_compliant", .integer S.alreadyCompliant),
      ("patched", .array (S.patched.map fun p => .text p.display)),
      ("non_compliant", .array (S.nonCompliant.map fun p => .text p.display)),
      ("recovered", .array (S.recovered.map fun p => .text p.display)),
      ("pending_backups", .array (S.pendingBackups.map fun p => .text p.display)),
      ("failures", if S.failures = [] then .array [] else .tables (S.failures.map fun f =>
        [("path", .text f.path.display), ("error", .text f.error)]))]) ∧
    ∀ p ∈ S.paths, Path.ofString p.display = p := by
  refine ⟨?_, fun p hp => Path.ofString_display (htext p hp)⟩
  have hrecord := Summary.record?_of_textual htext
  have hread := Toml.read_document (Summary.tabular hrecord hscanned hcompliant)
  refine ⟨_, Summary.report_of_record hrecord styled .toml, hread.trans ?_⟩
  simp only [List.map_cons, List.map_nil, Datum.tomlValue_failures]
  simp only [Datum.tomlValue, List.map_map]
  rfl

/-- A report with names and a failure that need each form of a string, and with lists of none, one
and two texts, is read back. -/
theorem toml_report_reads_back_of_quotes :
    let S : Summary := {
      root := Path.ofString "/it's"
      checkOnly := false
      filesScanned := 3
      patched := ["/it's/a\"\"\".py", "/it's/b\n'''.py"].map Path.ofString
      recovered := [Path.ofString "/it's/b\n'''.py"]
      failures := [⟨Path.ofString "/it's/\\.py", "disk\x07 \"\"\"'''\nfull"⟩] }
    ∃ text, S.report false (.data .toml) = .ok text ∧ Toml.read text = some [
      ("root", .text "/it's"),
      ("check_only", .boolean false),
      ("files_scanned", .integer 3),
      ("already_compliant", .integer 0),
      ("patched", .array [.text "/it's/a\"\"\".py", .text "/it's/b\n'''.py"]),
      ("non_compliant", .array []),
      ("recovered", .array [.text "/it's/b\n'''.py"]),
      ("pending_backups", .array []),
      ("failures", .tables [
        [("path", .text "/it's/\\.py"), ("error", .text "disk\x07 \"\"\"'''\nfull")]])] := by
  intro S
  have hdisplay : ∀ text ∈ ["/it's", "/it's/a\"\"\".py", "/it's/b\n'''.py", "/it's/\\.py"],
      (Path.ofString text).display = text := by
    decide +kernel
  simp only [List.forall_mem_cons] at hdisplay
  obtain ⟨hroot, ha, hb, hslash, -⟩ := hdisplay
  have hback := (toml_report_reads_back (S := S) false (by decide +kernel) (by decide)
    (by decide)).1
  simpa [S, hroot, ha, hb, hslash] using hback

end SourceCoding
