import SourceCoding.Proofs.JsonReport
import SourceCoding.Proofs.TomlReport
import SourceCoding.Proofs.YamlReport

/-!
# Reports are faithful

The JSON report of a summary and its YAML report each tell the summary: no two outcomes have the
same report. They tell its record, as the fields of a record are known by their names, and the
record tells the summary, as a path that is text is the UTF-8 form of this text. Where a path is no
text there is no report to mislead anyone; the report for a reader can always be made.

## Main definitions

* `Summary.schema`: of what kind the fields of a record are

## Main results

* `Summary.record?_inj`: a record tells its summary
* `Summary.report_fails_iff`: when a report for other programs cannot be made
* `reports_faithful`: both, and that the reports tell the record
-/

namespace SourceCoding

/-- Lists are equal if what is made of them is, where that tells their elements. -/
theorem eq_of_map_eq {α β : Type} {f : α → β} {xs ys : List α}
    (hf : ∀ x ∈ xs, ∀ y ∈ ys, f x = f y → x = y) (h : xs.map f = ys.map f) : xs = ys := by
  induction xs generalizing ys with
  | nil => simpa using h.symm
  | cons x xs ih =>
    cases ys with
    | nil => simp at h
    | cons y ys =>
      rw [List.map_cons, List.map_cons, List.cons.injEq] at h
      rw [hf x List.mem_cons_self y List.mem_cons_self h.1,
        ih (fun a ha b hb => hf a (List.mem_cons_of_mem _ ha) b (List.mem_cons_of_mem _ hb)) h.2]

/-- A path that is text is told by the text. -/
theorem Path.eq_of_display_eq {p q : Path} (hp : p.text?.isSome) (hq : q.text?.isSome)
    (h : p.display = q.display) : p = q := by
  rw [← Path.ofString_display hp, h, Path.ofString_display hq]

namespace Summary

variable {S T : Summary} {r : Record}

/-- **Of what kind the fields of a record are**, by their names. -/
def schema : String → Datum.Kind
  | "root" => .text
  | "check_only" => .flag
  | "files_scanned" => .count
  | "already_compliant" => .count
  | "failures" => .rows
  | _ => .texts

theorem textual_of_record? (h : S.record? = some r) : S.Textual :=
  isSome_record?.1 (by rw [h]; rfl)

theorem follows_schema (h : S.record? = some r) : r.Follows schema := by
  obtain rfl := Option.some.inj ((record?_of_textual (textual_of_record? h)).symm.trans h)
  simp [Record.Follows, Datum.kind, schema]

/-- The names in a record need no quotes. -/
theorem named (h : S.record? = some r) : ∀ f ∈ r, Yaml.IsName f.1 ∧ Yaml.Named f.2 := by
  obtain rfl := Option.some.inj ((record?_of_textual (textual_of_record? h)).symm.trans h)
  have hrows : ∀ row ∈ S.failures.map SkippedSource.fields, ∀ f ∈ row, Yaml.IsName f.1 := by
    intro row hrow
    obtain ⟨f, -, rfl⟩ := List.mem_map.1 hrow
    simp only [SkippedSource.fields, List.forall_mem_cons]
    decide
  simp only [List.forall_mem_cons, Yaml.Named, and_true]
  exact ⟨by decide, by decide, by decide, by decide, by decide, by decide, by decide, by decide,
    ⟨by decide, hrows⟩, by simp⟩

/-- **A record tells its summary.** -/
theorem record?_inj (hS : S.record? = some r) (hT : T.record? = some r) : S = T := by
  have htextS := textual_of_record? hS
  have htextT := textual_of_record? hT
  have hrecord := (record?_of_textual htextS).symm.trans (hS.trans
    (hT.symm.trans (record?_of_textual htextT)))
  obtain ⟨hrootS, hpatchedS, hmissingS, hrecoveredS, hpendingS, hfailuresS⟩ := textual_iff.1 htextS
  obtain ⟨hrootT, hpatchedT, hmissingT, hrecoveredT, hpendingT, hfailuresT⟩ := textual_iff.1 htextT
  have hpaths : ∀ {ps qs : List Path}, (∀ p ∈ ps, p.text?.isSome) → (∀ q ∈ qs, q.text?.isSome) →
      ps.map Path.display = qs.map Path.display → ps = qs := fun hps hqs =>
    eq_of_map_eq fun p hp q hq => Path.eq_of_display_eq (hps p hp) (hqs q hq)
  have hrows : S.failures.map SkippedSource.fields = T.failures.map SkippedSource.fields →
      S.failures = T.failures := by
    refine eq_of_map_eq fun f hf g hg heq => ?_
    simp only [SkippedSource.fields, List.cons.injEq, Prod.mk.injEq, true_and, and_true] at heq
    exact (SkippedSource.mk.injEq ..).mpr
      ⟨Path.eq_of_display_eq (hfailuresS f hf) (hfailuresT g hg) heq.1, heq.2⟩
  simp only [Option.some.injEq, List.cons.injEq, Prod.mk.injEq, Datum.text.injEq, Datum.flag.injEq,
    Datum.count.injEq, Datum.texts.injEq, Datum.rows.injEq, true_and, and_true] at hrecord
  obtain ⟨hroot, hcheck, hscanned, hcompliant, hpatched, hmissing, hrecovered, hpending,
    hfailures⟩ := hrecord
  exact (Summary.mk.injEq ..).mpr ⟨Path.eq_of_display_eq hrootS hrootT hroot, hcheck, hscanned,
    hcompliant, hpaths hpatchedS hpatchedT hpatched, hpaths hmissingS hmissingT hmissing,
    hpaths hrecoveredS hrecoveredT hrecovered, hpaths hpendingS hpendingT hpending,
    hrows hfailures⟩

theorem textual_iff_ofString : S.Textual ↔ ∀ p ∈ S.paths, ∃ text, p = Path.ofString text := by
  simp only [Textual, Path.isSome_text?_iff]

/-- **A report for other programs cannot be made** just if a path is no text. -/
theorem report_fails_iff (S : Summary) (styled : Bool) (format : DataFormat) :
    (∃ e, S.report styled (.data format) = .error e) ↔
      ∃ p ∈ S.paths, ∀ text, p ≠ Path.ofString text := by
  have hnot : (∃ p ∈ S.paths, ∀ text, p ≠ Path.ofString text) ↔ ¬ S.Textual := by
    rw [textual_iff_ofString]
    push Not
    rfl
  rw [hnot, ← isSome_record?]
  cases hr : S.record? with
  | none => simp [report, hr]
  | some r => simp [report, hr]

end Summary

/-- **Reports are faithful.** JSON reports of two summaries are equal only if the summaries are, in
all their fields, and so are YAML reports. A report for other programs fails just if a path of the
summary is not the UTF-8 form of a text, and the report for a reader never fails. -/
theorem reports_faithful :
    (∀ (S T : Summary) (styled : Bool) (format : DataFormat), format = .json ∨ format = .yaml →
      (∀ p ∈ S.paths, ∃ text, p = Path.ofString text) →
      (∀ p ∈ T.paths, ∃ text, p = Path.ofString text) →
      ∃ text text', S.report styled (.data format) = .ok text ∧
        T.report styled (.data format) = .ok text' ∧ (text = text' → S = T)) ∧
    (∀ (S : Summary) (styled : Bool) (format : DataFormat),
      (∃ e, S.report styled (.data format) = .error e) ↔
        ∃ p ∈ S.paths, ∀ text, p ≠ Path.ofString text) ∧
    ∀ (S : Summary) (styled : Bool), ∃ text, S.report styled .console = .ok text := by
  refine ⟨fun S T styled format hformat hS hT => ?_, Summary.report_fails_iff,
    fun S styled => ⟨_, rfl⟩⟩
  obtain ⟨r, hr⟩ := Option.isSome_iff_exists.1
    (Summary.isSome_record?.2 (Summary.textual_iff_ofString.2 hS))
  obtain ⟨r', hr'⟩ := Option.isSome_iff_exists.1
    (Summary.isSome_record?.2 (Summary.textual_iff_ofString.2 hT))
  refine ⟨_, _, Summary.report_of_record hr styled format,
    Summary.report_of_record hr' styled format, fun htext => ?_⟩
  have hrecord : r = r' := by
    rcases hformat with rfl | rfl
    · exact Json.document_inj (Summary.follows_schema hr) (Summary.follows_schema hr') htext
    · exact Yaml.document_inj (Summary.follows_schema hr) (Summary.follows_schema hr')
        (Summary.named hr) (Summary.named hr') htext
  exact Summary.record?_inj (hrecord ▸ hr) hr'

/-- Errors that differ only in the breaks at their ends have different reports. A summary whose
directory has a byte in its name that is no text has none. -/
theorem reports_faithful_of_breaks :
    let S : Summary := {
      root := Path.ofString "/r"
      checkOnly := false
      failures := [⟨Path.ofString "/r/a.py", "disk\nfull\n"⟩] }
    let T : Summary := { S with failures := [⟨Path.ofString "/r/a.py", "disk\nfull\n\n"⟩] }
    (∀ U ∈ [S, T], ∀ p ∈ U.paths, ∃ text, p = Path.ofString text) ∧
    (∀ format, format = .json ∨ format = .yaml → ∃ text text',
      S.report false (.data format) = .ok text ∧ T.report false (.data format) = .ok text' ∧
        text ≠ text') ∧
    ∃ e, ({ S with root := ⟨Bytes.slash :: [0xFF]⟩ } : Summary).report false (.data .toml) =
      .error e := by
  intro S T
  have hne : S ≠ T := by decide
  have htexts : ∀ U ∈ [S, T], ∀ p ∈ U.paths, ∃ text, p = Path.ofString text := by
    intro U hU p hp
    simp only [List.mem_cons, List.not_mem_nil, or_false] at hU
    rcases hU with rfl | rfl <;> simp [Summary.paths, S, T] at hp <;> rcases hp with rfl | rfl
    all_goals exact ⟨_, rfl⟩
  refine ⟨htexts, fun format hformat => ?_, ?_⟩
  · obtain ⟨text, text', hS, hT, heq⟩ := reports_faithful.1 S T false format hformat
      (htexts S (by simp)) (htexts T (by simp))
    exact ⟨text, text', hS, hT, fun h => hne (heq h)⟩
  · refine (reports_faithful.2.1 _ false .toml).2 ⟨⟨Bytes.slash :: [0xFF]⟩, by simp [Summary.paths],
      fun text htext => ?_⟩
    have hnone : (⟨Bytes.slash :: [0xFF]⟩ : Path).text?.isSome = false := by decide +kernel
    exact absurd (Path.isSome_text?_iff.2 ⟨text, htext⟩) (by simp [hnone])

end SourceCoding
