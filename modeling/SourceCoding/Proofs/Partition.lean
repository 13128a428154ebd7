import SourceCoding.Proofs.Inspection
import SourceCoding.Proofs.Sources

/-!
# A summary divides the sources

Each source of a pass has one fate: it was in order, a declaration was inserted or is missing, or it
failed. The lists of a summary are the sources with one fate each, in the order in which they were
found, so no source is left out and none is counted twice. Backups are a matter of their own: they
are told of sources that did not fail, whatever else became of these.

## Main definitions

* `Fate`: what becomes of a source
* `Summary.Divides`: the lists of a summary are those of the sources with each fate
* `Summary.Fits`: a summary has nothing that does not go with its mode

## Main results

* `Summary.Divides.tally`, `Summary.Fits.tally`: one source more
* `Pass.run_divided`: what a whole pass keeps
* `summary_divides`: the summary of a whole pass
-/

namespace SourceCoding

/-- **What becomes of a source** in a pass. -/
inductive Fate where
  /-- It declares its encoding. -/
  | compliant
  /-- A declaration was inserted. -/
  | patched
  /-- A declaration is missing. -/
  | nonCompliant
  /-- It could not be processed. -/
  | failed
  deriving DecidableEq, Repr

namespace Fate

/-- The fate of a source with an action. -/
def ofAction : Action → Fate
  | .alreadyCompliant => .compliant
  | .patched => .patched
  | .wouldPatch => .nonCompliant

/-- The fate of a source with what came of it. -/
def ofResult : Except Failure Outcome → Fate
  | .ok o => .ofAction o.action
  | .error _ => .failed

/-- Every source has one fate. -/
theorem length_eq (fate : Path → Fate) (files : List Path) :
    files.length = (files.filter (fate · = .compliant)).length +
      (files.filter (fate · = .patched)).length + (files.filter (fate · = .nonCompliant)).length +
      (files.filter (fate · = .failed)).length := by
  induction files with
  | nil => rfl
  | cons f rest ih =>
    cases h : fate f <;> simp [h, ih] <;> omega

end Fate

namespace Summary

/-! ## The lists of a summary -/

/-- **The lists of a summary are those of the sources with each fate**, in order. -/
structure Divides (S : Summary) (files : List Path) (fate : Path → Fate) : Prop where
  /-- Those in order are counted. -/
  alreadyCompliant : S.alreadyCompliant = (files.filter (fate · = .compliant)).length
  /-- Those that got a declaration are listed. -/
  patched : S.patched = files.filter (fate · = .patched)
  /-- Those that lack one are listed. -/
  nonCompliant : S.nonCompliant = files.filter (fate · = .nonCompliant)
  /-- Those that failed are listed. -/
  failures : S.failures.map SkippedSource.path = files.filter (fate · = .failed)
  /-- Of the others, those that were restored are listed. -/
  recovered : S.recovered.Sublist (files.filter (fate · ≠ .failed))
  /-- So are those whose backup was left. -/
  pendingBackups : S.pendingBackups.Sublist (files.filter (fate · ≠ .failed))

/-- **A summary has nothing that does not go with its mode.** -/
structure Fits (S : Summary) : Prop where
  /-- Where sources are only inspected nothing is done to them. -/
  check : S.checkOnly = true → S.patched = [] ∧ S.recovered = []
  /-- Where they may be changed nothing is left to be done. -/
  apply : S.checkOnly = false → S.nonCompliant = [] ∧ S.pendingBackups = []

variable {S : Summary} {files : List Path} {fate fate' : Path → Fate} {f : Path}
  {r : Except Failure Outcome}

theorem divides_blank (p : Pass) (root : Path) (files : List Path) (fate : Path → Fate) :
    (p.blank root files).Divides [] fate :=
  ⟨rfl, rfl, rfl, rfl, .slnil, .slnil⟩

theorem fits_blank (p : Pass) (root : Path) (files : List Path) : (p.blank root files).Fits :=
  ⟨fun _ => ⟨rfl, rfl⟩, fun _ => ⟨rfl, rfl⟩⟩

/-- Only the fates of the sources matter. -/
theorem Divides.congr (h : S.Divides files fate) (hfate : ∀ g ∈ files, fate' g = fate g) :
    S.Divides files fate' := by
  have hsame : ∀ q : Fate → Bool,
      (files.filter fun g => q (fate' g)) = files.filter fun g => q (fate g) :=
    fun q => List.filter_congr fun g hg => by rw [hfate g hg]
  obtain ⟨hc, hp, hn, hf, hr, hb⟩ := h
  refine ⟨?_, ?_, ?_, ?_, ?_, ?_⟩
  · rw [hc, hsame (· = .compliant)]
  · rw [hp, hsame (· = .patched)]
  · rw [hn, hsame (· = .nonCompliant)]
  · rw [hf, hsame (· = .failed)]
  · rwa [hsame (· ≠ .failed)]
  · rwa [hsame (· ≠ .failed)]

/-- A backup is told of one source more, or of none. -/
theorem sublist_recordBackup (S : Summary) (o : Outcome) :
    ((S.record o).recovered = S.recovered ∨ (S.record o).recovered = S.recovered ++ [o.path]) ∧
    ((S.record o).pendingBackups = S.pendingBackups ∨
      (S.record o).pendingBackups = S.pendingBackups ++ [o.path]) := by
  unfold record recordBackup
  cases o.hadBackup <;> cases S.checkOnly <;> cases o.action <;> simp [recordAction]

/-- What is told of one source more is told of it as one that did not fail. -/
theorem sublist_concat {told told' : List Path} (h : told.Sublist files)
    (h' : told' = told ∨ told' = told ++ [f]) : told'.Sublist (files ++ [f]) := by
  rcases h' with rfl | rfl
  · exact h.trans (List.sublist_append_left _ _)
  · exact h.append (.refl [f])

/-- **One source more** has the fate of what came of it. -/
theorem Divides.tally (h : S.Divides files fate) (hr : ∀ o, r = .ok o → o.path = f)
    (hfate : fate f = .ofResult r) : (S.tally f r).Divides (files ++ [f]) fate := by
  obtain ⟨hc, hp, hn, hf, hrec, hpend⟩ := h
  cases r with
  | error e =>
    replace hfate : fate f = .failed := hfate
    have hsub : (files ++ [f]).filter (fate · ≠ .failed) = files.filter (fate · ≠ .failed) := by
      simp [hfate]
    refine ⟨?_, ?_, ?_, ?_, hsub ▸ hrec, hsub ▸ hpend⟩ <;>
      simp [Summary.tally, recordFailure, hfate, hc, hp, hn, hf]
  | ok o =>
    obtain rfl := hr o rfl
    replace hfate : fate o.path = .ofAction o.action := hfate
    have hne : fate o.path ≠ .failed := by
      rw [hfate]
      cases o.action <;> simp [Fate.ofAction]
    have hsub : (files ++ [o.path]).filter (fate · ≠ .failed) =
        files.filter (fate · ≠ .failed) ++ [o.path] := by
      simp [hne]
    obtain ⟨hrec', hpend'⟩ := S.sublist_recordBackup o
    have hlists : (S.record o).alreadyCompliant =
          ((files ++ [o.path]).filter (fate · = .compliant)).length ∧
        (S.record o).patched = (files ++ [o.path]).filter (fate · = .patched) ∧
        (S.record o).nonCompliant = (files ++ [o.path]).filter (fate · = .nonCompliant) := by
      unfold record recordBackup
      cases ha : o.action <;> rw [ha] at hfate <;> cases o.hadBackup <;> cases S.checkOnly <;>
        simp [recordAction, Fate.ofAction, hfate, hc, hp, hn]
    refine ⟨hlists.1, hlists.2.1, hlists.2.2, ?_, ?_, ?_⟩
    · show (S.record o).failures.map SkippedSource.path = _
      simp [failures_record, hf, hne]
    · rw [hsub]
      exact sublist_concat hrec hrec'
    · rw [hsub]
      exact sublist_concat hpend hpend'

/-- **One source more** brings in nothing that does not go with the mode, if its action does not. -/
theorem Fits.tally (h : S.Fits) (hcheck : ∀ o, r = .ok o → S.checkOnly = true → o.action ≠ .patched)
    (happly : ∀ o, r = .ok o → S.checkOnly = false → o.action ≠ .wouldPatch) :
    (S.tally f r).Fits := by
  obtain ⟨hc, ha⟩ := h
  cases r with
  | error e => exact ⟨hc, ha⟩
  | ok o =>
    replace hcheck := hcheck o rfl
    replace happly := happly o rfl
    constructor <;> intro hmode <;> rw [checkOnly_tally] at hmode <;>
      simp only [hmode, true_implies] at hc ha hcheck happly <;>
      simp only [Summary.tally, record, recordBackup, hmode] <;>
      cases haction : o.action <;> cases o.hadBackup <;> simp_all [recordAction]

/-- What is left to be done of a summary is in its lists. -/
theorem isSuccess_iff {S : Summary} : S.isSuccess ↔ S.failures = [] ∧ S.nonCompliant = [] := by
  simp [isSuccess]

end Summary

/-! ## What comes of a source -/

section

variable {p : Patcher} {f : Path} {s s' : Session} {o : Outcome} {a : Action}

theorem ne_wouldPatch_of_settle {content : Bytes} (hm : p.mode = .apply)
    (h : ((p.settle f content).runIn s).1 = .ok a) : a ≠ .wouldPatch := by
  unfold Patcher.settle at h
  split at h
  · cases h
    simp
  · rw [hm] at h
    obtain ⟨-, s₁, -, h⟩ := Act.bind_eq_ok h
    cases h
    simp

/-- A treatment that succeeds is about its source, and leaves nothing to be done where it may do
it. -/
theorem patch_answers (h : ((p.patch f).runIn s).1 = .ok o) :
    o.path = f ∧ (p.mode = .apply → o.action ≠ .wouldPatch) := by
  unfold Patcher.patch at h
  obtain ⟨backup, s₁, -, h⟩ := Act.bind_eq_ok h
  obtain ⟨content, s₂, -, h⟩ := Act.bind_eq_ok h
  obtain ⟨action, s₃, hsettle, h⟩ := Act.bind_eq_ok h
  cases h
  exact ⟨rfl, fun hm => ne_wouldPatch_of_settle (s := s₂) hm (by rw [hsettle])⟩

end

/-! ## What comes of all sources -/

section

variable {p : Pass} {root f : Path} {s s' s₁ s₂ : Session} {done files : List Path}
  {summary S S' : Summary}

/-- What becomes of a source that is only inspected is decided by the content it is judged by. -/
def Pass.Judges (p : Pass) (s : Session) (f : Path) (fate : Fate) : Prop :=
  p.mode = .check → fate ≠ .failed → ∃ content,
    s.tree.judged s.cwd p.patcher.store f = .ok content ∧
      fate = if isCompliant content then .compliant else .nonCompliant

/-- **The summary divides the sources treated so far.** -/
structure Pass.Divided (p : Pass) (s : Session) (count : Nat) (done : List Path) (S : Summary)
    (s₁ : Session) : Prop where
  /-- All sources are counted beforehand. -/
  scanned : S.filesScanned = count
  /-- The summary says whether sources may be changed. -/
  checkOnly : S.checkOnly = decide (p.mode = .check)
  /-- It has nothing that does not go with that. -/
  fits : S.Fits
  /-- Nothing changes where they may not. -/
  same : p.mode = .check → s₁.tree = s.tree ∧ s₁.cwd = s.cwd
  /-- Its lists are those of the sources with each fate. -/
  fates : ∃ fate, S.Divides done fate ∧ ∀ f ∈ done, p.Judges s f (fate f)

/-- **One source more.** -/
theorem Pass.Divided.step {count : Nat} (h : p.Divided s count done S s₁) (hf : f ∉ done)
    (hstep : (p.step S f).runIn s₁ = (.ok S', s₂)) : p.Divided s count (done ++ [f]) S' s₂ := by
  obtain ⟨rfl, told, rfl⟩ := Pass.step_eq_tally hstep
  obtain ⟨hscanned, hcheckOnly, hfits, hsame, fate, hdivides, hjudges⟩ := h
  have hinspect : p.mode = .check → ∃ told, (p.patcher.patch f).runIn s₁ =
      (p.patcher.inspection s.tree s.cwd f, s₁.tell told) := by
    intro hm
    obtain ⟨htree, hcwd⟩ := hsame hm
    rw [← htree, ← hcwd]
    exact runIn_patch_of_check (p := p.patcher) hm s₁ f
  have hanswers : ∀ o, ((p.patcher.patch f).runIn s₁).1 = .ok o → o.path = f ∧
      (p.mode = .apply → o.action ≠ .wouldPatch) := fun o ho => patch_answers ho
  have hjudged : ∀ o, ((p.patcher.patch f).runIn s₁).1 = .ok o → p.mode = .check →
      ∃ content, s.tree.judged s.cwd p.patcher.store f = .ok content ∧
        o.action = .ofContent content := by
    intro o ho hm
    obtain ⟨told, hr⟩ := hinspect hm
    rw [hr] at ho
    obtain ⟨content, hcontent, -, haction⟩ := Patcher.inspection_eq_ok ho
    exact ⟨content, hcontent, haction⟩
  refine ⟨?_, (S.checkOnly_tally ..).trans hcheckOnly, hfits.tally ?_ ?_, fun hm => ?_,
    Function.update fate f (.ofResult ((p.patcher.patch f).runIn s₁).1), ?_, fun g hg => ?_⟩
  · cases ((p.patcher.patch f).runIn s₁).1 with
    | ok o => exact (S.filesScanned_record o).trans hscanned
    | error e => exact hscanned
  · intro o ho hcheck
    obtain ⟨content, -, haction⟩ := hjudged o ho (by simpa [hcheckOnly] using hcheck)
    rw [haction, Action.ofContent]
    split <;> simp
  · intro o ho happly
    refine (hanswers o ho).2 ?_
    cases hm : p.mode with
    | apply => rfl
    | check => simp [hcheckOnly, hm] at happly
  · obtain ⟨told', hr⟩ := hinspect hm
    rw [hr]
    exact hsame hm
  · refine (hdivides.congr fun g hg => ?_).tally (fun o ho => (hanswers o ho).1) (by simp)
    rw [Function.update_of_ne (ne_of_mem_of_not_mem hg hf)]
  · rcases List.mem_append.1 hg with hg | hg
    · rw [Function.update_of_ne (ne_of_mem_of_not_mem hg hf)]
      exact hjudges g hg
    · obtain rfl := List.mem_singleton.1 hg
      rw [Function.update_self]
      intro hm hne
      cases hr : ((p.patcher.patch g).runIn s₁).1 with
      | error e => simp [hr, Fate.ofResult] at hne
      | ok o =>
        obtain ⟨content, hcontent, haction⟩ := hjudged o hr hm
        refine ⟨content, hcontent, ?_⟩
        rw [Fate.ofResult, haction, Action.ofContent]
        split <;> rfl

/-- All sources are treated where a pass ends with a summary. -/
theorem Pass.run_divided (hr : (p.run root).runIn s = (.ok summary, s')) :
    (s.tree.survey s.cwd p.config root).obstacle = none ∧
      p.Divided s (s.tree.survey s.cwd p.config root).sources.length
        (s.tree.survey s.cwd p.config root).sources summary s' := by
  have hnodup := Tree.nodup_sources s.tree s.cwd p.config root
  refine Pass.run_ok (I := p.Divided s (s.tree.survey s.cwd p.config root).sources.length)
    (fun done S s₁ es h => ⟨h.scanned, h.checkOnly, h.fits, h.same, h.fates⟩) ?_ hr
    ⟨rfl, rfl, Summary.fits_blank .., fun _ => ⟨rfl, rfl⟩, fun _ => .compliant,
      Summary.divides_blank .., by simp⟩
  intro done f rest S s₁ S' s₂ hfiles h hstep
  rw [hfiles, List.nodup_append] at hnodup
  exact h.step (fun hmem => hnodup.2.2 f hmem f (by simp) rfl) hstep

/-- **A summary divides the sources.** When a pass ends with a summary, every source that was found
has one fate, and the lists of the summary are the sources with each fate in the order in which they
were found; those in order are counted, and the counts add up. Backups are told of sources that did
not fail, and no list names a source twice. Where sources may be changed nothing is left to be done;
where they are only inspected nothing has been done to them, and the pass is a success just if no
source failed and every content by which a source is judged is in order. -/
theorem summary_divides (hr : (p.run root).runIn s = (.ok summary, s')) :
    ∃ files, ((collect p.config root).runIn s).1 = .ok files ∧
      (∃ fate, summary.Divides files fate) ∧
      summary.filesScanned = files.length ∧
      summary.filesScanned = summary.alreadyCompliant + summary.patched.length +
        summary.nonCompliant.length + summary.failures.length ∧
      summary.patched.Nodup ∧ summary.nonCompliant.Nodup ∧ summary.recovered.Nodup ∧
      summary.pendingBackups.Nodup ∧ (summary.failures.map SkippedSource.path).Nodup ∧
      (p.mode = .apply → summary.nonCompliant = [] ∧ summary.pendingBackups = []) ∧
      (p.mode = .check → summary.patched = [] ∧ summary.recovered = [] ∧
        (summary.isSuccess ↔ summary.failures = [] ∧ ∀ f ∈ files, ∃ content,
          s.tree.judged s.cwd p.patcher.store f = .ok content ∧ isCompliant content)) := by
  have hnodup := Tree.nodup_sources s.tree s.cwd p.config root
  obtain ⟨ho, hscanned, hcheckOnly, hfits, -, fate, hdivides, hjudges⟩ := Pass.run_divided hr
  have hcollect : ((collect p.config root).runIn s).1 =
      .ok (s.tree.survey s.cwd p.config root).sources := by
    rw [runIn_collect, ho]
  generalize (s.tree.survey s.cwd p.config root).sources = files at *
  have hsub : ∀ {told : List Path}, told.Sublist (files.filter (fate · ≠ .failed)) → told.Nodup :=
    fun h => (hnodup.filter _).sublist h
  refine ⟨files, hcollect, ⟨fate, hdivides⟩, hscanned, ?_, ?_, ?_, hsub hdivides.recovered,
    hsub hdivides.pendingBackups, ?_, fun hm => hfits.apply (by simp [hcheckOnly, hm]),
    fun hm => ?_⟩
  · have hfailed : summary.failures.length = (files.filter (fate · = .failed)).length := by
      rw [← hdivides.failures, List.length_map]
    rw [hscanned, hdivides.alreadyCompliant, hdivides.patched, hdivides.nonCompliant, hfailed]
    exact Fate.length_eq fate files
  · exact hdivides.patched ▸ hnodup.filter _
  · exact hdivides.nonCompliant ▸ hnodup.filter _
  · exact hdivides.failures ▸ hnodup.filter _
  · obtain ⟨hpatched, hrecovered⟩ := hfits.check (by simp [hcheckOnly, hm])
    refine ⟨hpatched, hrecovered, Summary.isSuccess_iff.trans (and_congr_right fun hfailures => ?_)⟩
    -- No source failed, so each has been judged by a content.
    have hfailed : ∀ f ∈ files, fate f ≠ .failed := by
      have h := hdivides.failures
      rw [hfailures, List.map_nil, eq_comm, List.filter_eq_nil_iff] at h
      simpa using h
    rw [hdivides.nonCompliant, List.filter_eq_nil_iff]
    refine forall₂_congr fun f hf => ?_
    obtain ⟨content, hcontent, hfate⟩ := hjudges f hf hm (hfailed f hf)
    rw [hfate, hcontent]
    by_cases hc : isCompliant content <;> simp [hc]

/-- Of four sources one is in order, one lacks a declaration and so does the backup of another, and
the backup of the third is a directory. -/
theorem summary_divides_of_four :
    let t := ((((((Tree.empty.put [Bytes.ofString "a.py"]
      (.file (Bytes.ofString "# coding: utf-8"))).put
      [Bytes.ofString "b.py"] (.file (Bytes.ofString "x = 1"))).put
      [Bytes.ofString "c.py"] (.file (Bytes.ofString "y = 2"))).put
      [Bytes.ofString "c.py.checker"] .dir).put
      [Bytes.ofString "d.py"] (.file (Bytes.ofString "# coding: utf-8"))).put
      [Bytes.ofString "d.py.checker"] (.file (Bytes.ofString "z = 3")))
    ∃ S s' fate, (Pass.run ⟨{}, .check, []⟩ (Path.ofString "/")).runIn ⟨t, [], []⟩ = (.ok S, s') ∧
      S.Divides (["/a.py", "/b.py", "/c.py", "/d.py"].map Path.ofString) fate ∧
      S.nonCompliant = ["/b.py", "/d.py"].map Path.ofString ∧
      S.failures.map SkippedSource.path = [Path.ofString "/c.py"] ∧ ¬ S.isSuccess := by
  intro t
  have hcollect : ((collect {} (Path.ofString "/")).runIn ⟨t, [], []⟩).1 =
      .ok (["/a.py", "/b.py", "/c.py", "/d.py"].map Path.ofString) := by
    decide +kernel
  have hlists : ((Pass.run ⟨{}, .check, []⟩ (Path.ofString "/")).runIn
      ⟨t, [], []⟩).1.toOption.map (fun S => (S.nonCompliant, S.failures.map SkippedSource.path)) =
      some (["/b.py", "/d.py"].map Path.ofString, [Path.ofString "/c.py"]) := by
    decide +kernel
  obtain ⟨S, s', hr, hpaths⟩ := Act.exists_runIn_of_map hlists
  obtain ⟨hmissing, hfailed⟩ := Prod.mk.inj hpaths
  obtain ⟨files, hfiles, ⟨fate, hdivides⟩, -, -, -, -, -, -, -, -, hcheck⟩ := summary_divides hr
  obtain rfl := Except.ok.inj (hfiles.symm.trans hcollect)
  refine ⟨S, s', fate, hr, hdivides, hmissing, hfailed, fun hsuccess => ?_⟩
  rw [((hcheck rfl).2.2.1 hsuccess).1] at hfailed
  simp at hfailed

end

end SourceCoding
