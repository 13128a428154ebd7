import SourceCoding.Proofs.Commands
import SourceCoding.Proofs.Partition
import SourceCoding.Proofs.Untouched

/-!
# The exit status

A command that comes to its work ends with status 0 or 1. It succeeds if its configuration is
accepted and it has no directory, or has one whose sources can be collected, of which none fails
and, where they are only inspected, none lacks a declaration. What the self-test says and how much
is logged does not matter. The form of the report matters in one case only: a structured report
takes paths as text, and where a path is none the command ends with status 1 after a pass that
succeeded.

## Main definitions

* `Invocation.Succeeds`: the configuration and the pass of a command succeed
* `Invocation.Reportable`: the report of a command can be made
* `Invocation.Alike`: two commands that differ in what they show only

## Main results

* `exit_status`: the status of a command, and what two commands have in common
-/

namespace SourceCoding

namespace Invocation

variable {i i' : Invocation} {t : Tree} {cwd : Location}

/-- **The configuration and the pass of a command succeed.** -/
def Succeeds (i : Invocation) (t : Tree) (cwd : Location) : Prop :=
  ∃ c, i.settled t cwd = .ok c ∧ ∀ root, i.directory = some root →
    root.isAbsolute ∧ (∃ files, ((collect c root).runIn ⟨t, cwd, []⟩).1 = .ok files) ∧
      ∃ S, ((Pass.run ⟨c, i.mode, []⟩ root).runIn ⟨t, cwd, []⟩).1 = .ok S ∧ S.failures = [] ∧
        (i.check = true → S.nonCompliant = [])

/-- **The report of a command can be made**: if it is a structured one, all paths of the summary are
text. -/
def Reportable (i : Invocation) (t : Tree) (cwd : Location) : Prop :=
  ∀ c root S format, i.settled t cwd = .ok c → i.directory = some root →
    ((Pass.run ⟨c, i.mode, []⟩ root).runIn ⟨t, cwd, []⟩).1 = .ok S →
      i.report = some (.data format) → S.Textual

/-- **Two commands differ in what they show only**: in the report, in how much is logged, and in
whether there is a self-test. -/
def Alike (i i' : Invocation) : Prop :=
  { i' with
    report := i.report, skipSelfTest := i.skipSelfTest, verbose := i.verbose, quiet := i.quiet } = i

end Invocation

/-! ## The summary of a pass -/

section

variable {p : Pass} {root : Path} {s s' : Session} {S : Summary} {report : Option ReportFormat}

/-- A pass that comes to a summary has collected the sources below an absolute root. -/
theorem Pass.collected_of_run (hr : (p.run root).runIn s = (.ok S, s')) :
    root.isAbsolute ∧ ∃ files, ((collect p.config root).runIn s).1 = .ok files := by
  constructor
  · by_contra habs
    rw [Pass.run_of_relative p (by simpa using habs)] at hr
    cases hr
  · obtain ⟨ho, -⟩ := Pass.run_divided hr
    exact ⟨(s.tree.survey s.cwd p.config root).sources, by rw [runIn_collect, ho]⟩

/-- Only where sources are inspected may one be left without a declaration. -/
theorem Pass.isSuccess_of_run (hr : (p.run root).runIn s = (.ok S, s')) :
    S.isSuccess ↔ S.failures = [] ∧ (p.mode = .check → S.nonCompliant = []) := by
  obtain ⟨-, hdivided⟩ := Pass.run_divided hr
  rw [Summary.isSuccess_iff]
  refine and_congr_right fun _ => ⟨fun h _ => h, fun h => ?_⟩
  cases hm : p.mode with
  | check => exact h hm
  | apply => exact (hdivided.fits.apply (by simp [hdivided.checkOnly, hm])).1

/-- A pass that is a success, and whose report can be made, ends with status 0. -/
theorem Summary.verdict_of_success (hS : S.isSuccess)
    (hreport : ∀ format, report = some (.data format) → S.Textual) : S.verdict report = .ok 0 := by
  rcases report with _ | _ | format
  · simp [verdict, hS]
  · simp [verdict, hS]
  · simp [verdict, hS, hreport format rfl]

/-- Any other one ends with status 1. -/
theorem Summary.verdict_of_failure
    (h : ¬ (S.isSuccess ∧ ∀ format, report = some (.data format) → S.Textual)) :
    (S.verdict report).toOption.getD 1 = 1 := by
  rcases report with _ | _ | format
  · have hS : ¬ S.isSuccess := fun hS => h ⟨hS, by simp⟩
    simp [verdict, hS, Except.toOption]
  · have hS : ¬ S.isSuccess := fun hS => h ⟨hS, by simp⟩
    simp [verdict, hS, Except.toOption]
  · by_cases htext : S.Textual
    · have hS : ¬ S.isSuccess := fun hS => h ⟨hS, fun _ _ => htext⟩
      simp [verdict, hS, htext, Except.toOption]
    · simp [verdict, htext, Except.toOption]

end

/-! ## The outcome of a command -/

/-- Where no directive is written, the limit speaks of all records. -/
theorem LogFilter.read_empty (limit : Limit) : read "" limit = .ok (ofLimit limit) := by
  have hsplit : "".splitOn "," = [""] := by
    rw [String.splitOn, if_neg (by decide), String.splitOnAux]
    rfl
  have hparts : parts "" = [] := by
    rw [parts, hsplit]
    decide
  rw [read, hparts]
  rfl

namespace Invocation

variable {i i' : Invocation} {t : Tree} {cwd : Location}

theorem mode_eq_check : i.mode = .check ↔ i.check = true := by
  cases hc : i.check <;> simp [mode, hc]

/-- **A command succeeds with its report**, or its status is 1. -/
theorem status_of_outcome (i : Invocation) (t : Tree) (cwd : Location) :
    (i.Succeeds t cwd ∧ i.Reportable t cwd → (i.outcome t cwd).1.toOption.getD 1 = 0) ∧
      (¬ (i.Succeeds t cwd ∧ i.Reportable t cwd) → (i.outcome t cwd).1.toOption.getD 1 = 1) := by
  unfold outcome
  cases hsettled : i.settled t cwd with
  | error a =>
    refine ⟨?_, fun _ => rfl⟩
    rintro ⟨⟨c, hc, -⟩, -⟩
    simp [hsettled] at hc
  | ok c =>
    cases hdir : i.directory with
    | none =>
      refine ⟨fun _ => rfl, fun h => absurd ⟨⟨c, hsettled, ?_⟩, ?_⟩ h⟩
      · simp [hdir]
      · intro c root S format _ hroot
        simp [hdir] at hroot
    | some root =>
      dsimp only
      rcases hr : (Pass.run ⟨c, i.mode, []⟩ root).runIn ⟨t, cwd, []⟩ with ⟨a | S, s'⟩
      · refine ⟨?_, fun _ => rfl⟩
        rintro ⟨⟨c', hc', hsucceeds⟩, -⟩
        obtain rfl := Except.ok.inj (hsettled.symm.trans hc')
        obtain ⟨-, -, S, hS, -⟩ := hsucceeds root hdir
        simp [hr] at hS
      · have hiff : i.Succeeds t cwd ∧ i.Reportable t cwd ↔
            S.isSuccess ∧ ∀ format, i.report = some (.data format) → S.Textual := by
          rw [Pass.isSuccess_of_run hr, mode_eq_check]
          constructor
          · rintro ⟨⟨c', hc', hsucceeds⟩, hreportable⟩
            obtain rfl := Except.ok.inj (hsettled.symm.trans hc')
            obtain ⟨-, -, S', hS', hfailures, hmissing⟩ := hsucceeds root hdir
            obtain rfl : S = S' := by simpa [hr] using hS'
            exact ⟨⟨hfailures, hmissing⟩, fun format hformat =>
              hreportable c root S format hsettled hdir (by rw [hr]) hformat⟩
          · rintro ⟨⟨hfailures, hmissing⟩, htext⟩
            constructor
            · refine ⟨c, hsettled, fun root' hroot' => ?_⟩
              obtain rfl := Option.some.inj (hdir.symm.trans hroot')
              obtain ⟨habs, hfiles⟩ := Pass.collected_of_run hr
              exact ⟨habs, hfiles, S, by rw [hr], hfailures, hmissing⟩
            · intro c' root' S' format hc' hroot' hS' hformat
              obtain rfl := Except.ok.inj (hsettled.symm.trans hc')
              obtain rfl := Option.some.inj (hdir.symm.trans hroot')
              obtain rfl : S = S' := by simpa [hr] using hS'
              exact htext format hformat
        rw [hiff]
        refine ⟨fun h => ?_, Summary.verdict_of_failure⟩
        rw [Except.bind, Summary.verdict_of_success h.1 h.2]
        rfl

theorem Alike.settled (h : i.Alike i') : i'.settled t cwd = i.settled t cwd := by
  rw [← h]
  rfl

theorem Alike.succeeds (h : i.Alike i') : i'.Succeeds t cwd ↔ i.Succeeds t cwd := by
  rw [← h]
  rfl

/-- Two commands that differ in what they show only leave the same tree. -/
theorem Alike.tree_outcome (h : i.Alike i') : (i'.outcome t cwd).2 = (i.outcome t cwd).2 := by
  have hdir : i'.directory = i.directory := by rw [← h]
  have hmode : i'.mode = i.mode := by
    rw [← h]
    rfl
  simp only [outcome, h.settled, hdir, hmode]
  cases i.settled t cwd with
  | error a => rfl
  | ok c => cases i.directory <;> rfl

end Invocation

/-- **The exit status.** A command that comes to its work ends with status 0 if its configuration is
accepted and it has no directory, or an absolute one whose sources are collected, none of which
fails and, where they are only inspected, none lacks a declaration; and if its report can be made.
Otherwise it ends with status 1. Another command on the same tree that differs in what it shows only
leaves the same tree, and has the same status if the reports of both can be made. -/
theorem exit_status {s : Surroundings} {words : List Bytes} {i : Invocation} {filter : LogFilter}
    (hcwd : s.tree.get? s.cwd = some .dir) (hread : Invocation.read words = .ok i)
    (hfilter : LogFilter.read s.logFilter i.logLimit = .ok filter) :
    (i.Succeeds s.tree s.cwd ∧ i.Reportable s.tree s.cwd → (Command.run s words).status = 0) ∧
    (¬ (i.Succeeds s.tree s.cwd ∧ i.Reportable s.tree s.cwd) →
      (Command.run s words).status = 1) ∧
    ∀ (s' : Surroundings) (words' : List Bytes) (i' : Invocation) (filter' : LogFilter),
      s'.tree = s.tree → s'.cwd = s.cwd → Invocation.read words' = .ok i' → i.Alike i' →
      LogFilter.read s'.logFilter i'.logLimit = .ok filter' →
        (Command.run s' words').tree = (Command.run s words).tree ∧
        (i.Reportable s.tree s.cwd → i'.Reportable s.tree s.cwd →
          (Command.run s' words').status = (Command.run s words).status) := by
  obtain ⟨hstatus, htree⟩ := Command.run_of_read hcwd hread hfilter
  obtain ⟨hzero, hone⟩ := i.status_of_outcome s.tree s.cwd
  rw [hstatus, htree]
  refine ⟨hzero, hone, ?_⟩
  intro s' words' i' filter' htree' hcwd' hread' halike hfilter'
  obtain ⟨hstatus', hleft⟩ := Command.run_of_read (by rw [htree', hcwd', hcwd]) hread' hfilter'
  rw [hstatus', hleft, htree', hcwd', halike.tree_outcome]
  refine ⟨rfl, fun hreport hreport' => ?_⟩
  obtain ⟨hzero', hone'⟩ := i'.status_of_outcome s.tree s.cwd
  by_cases hs : i.Succeeds s.tree s.cwd
  · rw [hzero ⟨hs, hreport⟩, hzero' ⟨halike.succeeds.2 hs, hreport'⟩]
  · rw [hone fun h => hs h.1, hone' fun h => hs (halike.succeeds.1 h.1)]

/-- A check that finds a declaration missing ends with status 1, with a report as without. -/
theorem exit_status_of_missing :
    let t := Tree.empty.put [Bytes.ofString "a.py"] (.file (Bytes.ofString "x = 1"))
    let s : Surroundings := { tree := t, cwd := [], scratch := Path.ofString "/scratch" }
    (Command.run s (["--check", "/"].map Bytes.ofString)).status = 1 ∧
    (Command.run s (["--check", "--report", "json", "-v", "/"].map Bytes.ofString)).status = 1 := by
  intro t s
  have hread : Invocation.read (["--check", "/"].map Bytes.ofString) =
      .ok { directory := some (Path.ofString "/"), check := true } := by
    decide +kernel
  have hread' : Invocation.read (["--check", "--report", "json", "-v", "/"].map Bytes.ofString) =
      .ok { directory := some (Path.ofString "/"), check := true, report := some (.data .json),
            verbose := 1 } := by
    decide +kernel
  have hpass : ((Pass.run ⟨{}, .check, []⟩ (Path.ofString "/")).runIn ⟨t, [], []⟩).1.toOption.map
      (fun S => (S.nonCompliant, decide S.Textual)) = some ([Path.ofString "/a.py"], true) := by
    decide +kernel
  obtain ⟨S, left, hrun, hlists⟩ := Act.exists_runIn_of_map hpass
  obtain ⟨hmissing, htext⟩ : S.nonCompliant = [Path.ofString "/a.py"] ∧ S.Textual := by
    simpa using hlists
  have hfound : ∀ {S'}, ((Pass.run ⟨{}, .check, []⟩ (Path.ofString "/")).runIn ⟨t, [], []⟩).1 =
      .ok S' → S = S' := by
    intro S' hS'
    rw [hrun] at hS'
    exact Except.ok.inj hS'
  obtain ⟨-, hone, hother⟩ := exit_status (s := s) rfl hread (LogFilter.read_empty _)
  have hstatus := hone fun h => by
    obtain ⟨⟨c, hc, hsucceeds⟩, -⟩ := h
    obtain rfl := Except.ok.inj hc
    obtain ⟨-, -, S', hS', -, hnone⟩ := hsucceeds _ rfl
    obtain rfl := hfound hS'
    simp [hmissing] at hnone
  obtain ⟨-, hsame⟩ := hother s _ _ _ rfl rfl hread' rfl (LogFilter.read_empty _)
  refine ⟨hstatus, (hsame ?_ ?_).trans hstatus⟩
  · rintro c root S' format - - - hformat
    cases hformat
  · rintro c root S' format hc hroot hS' -
    obtain rfl := Except.ok.inj hc
    obtain rfl := Option.some.inj hroot
    obtain rfl := hfound hS'
    exact htext

/-- A source whose name is no text gets its declaration, and the command ends with status 1 for the
sake of its report only. With a log filter that cannot be cut into pieces it ends with neither. -/
theorem exit_status_of_unnamed :
    let t := Tree.empty.put [[0x61, 0xFF, 0x2E, 0x70, 0x79]] (.file (Bytes.ofString "x = 1"))
    let s : Surroundings := { tree := t, cwd := [], scratch := Path.ofString "/scratch" }
    let words := ["--report", "json", "/"].map Bytes.ofString
    (∃ i, Invocation.read words = .ok i ∧ i.Succeeds t []) ∧
    (Command.run s words).status = 1 ∧
    (Command.run s (["/"].map Bytes.ofString)).status = 0 ∧
    (Command.run { s with logFilter := " é=" } (["/"].map Bytes.ofString)).status = 101 := by
  intro t s words
  have hread : Invocation.read words =
      .ok { directory := some (Path.ofString "/"), report := some (.data .json) } := by
    decide +kernel
  have hread' : Invocation.read (["/"].map Bytes.ofString) =
      .ok { directory := some (Path.ofString "/") } := by
    decide +kernel
  refine ⟨⟨_, hread, {}, rfl, ?_⟩, ?_, ?_, ?_⟩
  · rintro root ⟨⟩
    have hpass : ((Pass.run ⟨{}, .apply, []⟩ (Path.ofString "/")).runIn ⟨t, [], []⟩).1.toOption.map
        (fun S => (S.failures, S.nonCompliant)) = some ([], []) := by
      decide +kernel
    obtain ⟨S, left, hrun, hlists⟩ := Act.exists_runIn_of_map hpass
    obtain ⟨habs, hfiles⟩ := Pass.collected_of_run hrun
    obtain ⟨hfailures, hmissing⟩ := Prod.mk.inj hlists
    exact ⟨habs, hfiles, S, congrArg Prod.fst hrun, hfailures, fun _ => hmissing⟩
  · rw [(Command.run_of_read (s := s) rfl hread (LogFilter.read_empty _)).1]
    decide +kernel
  · rw [(Command.run_of_read (s := s) rfl hread' (LogFilter.read_empty _)).1]
    decide +kernel
  · have hsplit : " é=".splitOn "," = [" é="] := by
      rw [String.splitOn, if_neg (by decide)]
      repeat rw [String.splitOnAux, if_neg (by decide +kernel), if_neg (by decide +kernel)]
      rw [String.splitOnAux, if_pos (by decide +kernel)]
      decide +kernel
    have hfilter : LogFilter.directivesOf (LogFilter.parts " é=") = .error ⟨.stop, 2, 'é', 1⟩ := by
      rw [LogFilter.parts, hsplit]
      decide +kernel
    rw [Command.run, hread']
    dsimp only
    rw [LogFilter.read, hfilter]
    rfl

end SourceCoding
