import SourceCoding.Command
import SourceCoding.Proofs.Hindsight
import SourceCoding.Proofs.Rehearsal
import SourceCoding.Proofs.Texts

/-!
# What comes of a command

A command resolves its configuration, tests itself and makes a pass. The self-test leaves no trace
in the tree, and the pass does not look back at what was told before it; so what comes of a command
is what comes of its configuration and its pass in the tree in which it started. Of the report only
this matters, whether it can be made.

## Main definitions

* `Invocation.settled`: the configuration of a command
* `Summary.verdict`: the exit status of a pass with a summary, unless its report cannot be made
* `Invocation.outcome`: what comes of a command

## Main results

* `Config.runIn_resolve`: a configuration is loaded and then accepted or not
* `Invocation.perform_outcome`: the work of a command comes to that
* `Command.run_of_read`: so does the whole command
-/

namespace SourceCoding

/-! ## Configurations -/

/-- To load a configuration changes nothing. -/
theorem Config.exists_runIn_load (file : Option Path) (o : Overrides) (s : Session) :
    ∃ r, (load file o).runIn s = (r, s) := by
  cases file with
  | none => exact ⟨_, rfl⟩
  | some path =>
    have hread : ∃ r, (readFrom path).runIn s = (r, s) := by
      unfold readFrom
      rw [Act.runIn_bind, Act.runIn_query]
      cases s.tree.read s.cwd path with
      | error e => exact ⟨_, rfl⟩
      | ok content =>
        dsimp only [Except.mapError]
        split
        · exact ⟨_, rfl⟩
        · split <;> exact ⟨_, rfl⟩
    obtain ⟨r, hr⟩ := hread
    refine ⟨r.map o.applyTo, ?_⟩
    show (o.applyTo <$> readFrom path).runIn s = _
    rw [Act.runIn_map, hr]
    cases r <;> rfl

/-- **A configuration that is loaded is resolved** unless it has issues, which are then the
failure; of one that is resolved it is told. -/
theorem Config.runIn_resolve (file : Option Path) (o : Overrides) (s : Session) :
    (resolve file o).runIn s =
      match ((load file o).runIn s).1 with
      | .error a => (.error a, s)
      | .ok c => if c.issues = [] then (.ok c, s.tell [.configResolved c])
        else (.error (.plain c.failure), s) := by
  obtain ⟨r, hr⟩ := exists_runIn_load file o s
  unfold resolve
  rw [Act.runIn_bind, hr]
  cases r with
  | error a => rfl
  | ok c => by_cases hc : c.issues = [] <;> simp [hc]

/-- A configuration that is resolved has no issues, and all that is done is to tell of it. -/
theorem Config.resolve_cases (file : Option Path) (o : Overrides) (s : Session) :
    (∃ c told, (resolve file o).runIn s = (.ok c, s.tell told) ∧ c.Valid) ∨
      ∃ a, (resolve file o).runIn s = (.error a, s) := by
  rw [runIn_resolve]
  cases ((load file o).runIn s).1 with
  | error a => exact .inr ⟨a, rfl⟩
  | ok c =>
    by_cases hc : c.issues = []
    · exact .inl ⟨c, [.configResolved c], if_pos hc, hc⟩
    · exact .inr ⟨.plain c.failure, if_neg hc⟩

/-! ## What is shown of a pass -/

/-- **The exit status of a pass** with a summary, unless its report cannot be made. -/
def Summary.verdict (S : Summary) (report : Option ReportFormat) : Except Abort Nat :=
  match report with
  | some (.data format) =>
    if S.Textual then .ok (if S.isSuccess then 0 else 1) else .error (.unrenderable format)
  | _ => .ok (if S.isSuccess then 0 else 1)

/-- What is shown of a pass decides neither about its exit status nor about the tree, but for a
report that cannot be made. -/
theorem Pass.runIn_fix (p : Pass) (styled : Bool) (report : Option ReportFormat) (root : Path)
    (s : Session) :
    ((p.fix styled report root).runIn s).2.tree = ((p.run root).runIn s).2.tree ∧
      ((p.fix styled report root).runIn s).1.map (fun S => if S.isSuccess then 0 else 1) =
        ((p.run root).runIn s).1.bind (·.verdict report) := by
  unfold fix
  rw [Act.runIn_bind]
  rcases (p.run root).runIn s with ⟨a | S, s'⟩
  · exact ⟨rfl, rfl⟩
  · cases report with
    | none => exact ⟨rfl, rfl⟩
    | some format =>
      cases format with
      | console => exact ⟨rfl, rfl⟩
      | data format =>
        have hrecord := S.isSome_record?
        simp only [Summary.report, Summary.verdict, Except.bind]
        cases hr : S.record? with
        | none =>
          rw [hr] at hrecord
          rw [if_neg (by simpa using hrecord)]
          exact ⟨rfl, rfl⟩
        | some r =>
          rw [hr] at hrecord
          rw [if_pos (by simpa using hrecord)]
          exact ⟨rfl, rfl⟩

/-! ## The work of a command -/

namespace Invocation

variable (i : Invocation) (t : Tree) (cwd : Location)

/-- The configuration that a command works with, or why it has none. -/
def settled : Except Abort Config :=
  ((Config.resolve i.configFile i.overrides).runIn ⟨t, cwd, []⟩).1

/-- **What comes of a command**: the exit status or the failure, and the tree it leaves. -/
def outcome : Except Abort Nat × Tree :=
  match i.settled t cwd with
  | .error a => (.error a, t)
  | .ok c =>
    match i.directory with
    | none => (.ok 0, t)
    | some root =>
      let (result, s) := (Pass.run ⟨c, i.mode, []⟩ root).runIn ⟨t, cwd, []⟩
      (result.bind (·.verdict i.report), s.tree)

variable {i t cwd}

/-- After the self-test the tree and the directory decide. -/
theorem conclude_outcome (c : Config) (styled : Bool) {s : Session} (htree : s.tree = t)
    (hcwd : s.cwd = cwd) (hc : i.settled t cwd = .ok c) :
    let a : Act Abort Nat := match i.directory with
      | none => do
        emit .directoryMissing
        pure 0
      | some root => do
        let summary ← Pass.fix ⟨c, i.mode, []⟩ styled i.report root
        pure (if summary.isSuccess then 0 else 1)
    (a.runIn s).1 = (i.outcome t cwd).1 ∧ (a.runIn s).2.tree = (i.outcome t cwd).2 := by
  unfold outcome
  rw [hc]
  cases i.directory with
  | none => exact ⟨rfl, htree⟩
  | some root =>
    obtain ⟨hshown, hstatus⟩ := Pass.runIn_fix ⟨c, i.mode, []⟩ styled i.report root s
    obtain ⟨hresult, hend⟩ := (Pass.forgets_run ⟨c, i.mode, []⟩ root).congr
      (s := ⟨t, cwd, []⟩) htree hcwd
    rw [hresult] at hstatus
    rw [hend] at hshown
    dsimp only
    rw [Act.runIn_bind, ← hstatus, ← hshown]
    rcases (Pass.fix ⟨c, i.mode, []⟩ styled i.report root).runIn s with ⟨a | S, s'⟩
    · exact ⟨rfl, rfl⟩
    · exact ⟨rfl, rfl⟩

/-- **The work of a command comes to its outcome**, whatever the self-test says and whatever is
shown. -/
theorem perform_outcome (i : Invocation) (hcwd : t.get? cwd = some .dir) (scratch : Path)
    (styled : Bool) :
    ((i.perform scratch styled).runIn ⟨t, cwd, []⟩).1 = (i.outcome t cwd).1 ∧
      ((i.perform scratch styled).runIn ⟨t, cwd, []⟩).2.tree = (i.outcome t cwd).2 := by
  -- The configuration is told of, the self-test leaves the tree, and the pass forgets both.
  rcases Config.resolve_cases i.configFile i.overrides ⟨t, cwd, []⟩ with
    ⟨c, told, hr, hc⟩ | ⟨a, hr⟩
  · have hsettled : i.settled t cwd = .ok c := by rw [settled, hr]
    unfold perform
    rw [Act.runIn_bind, hr]
    cases i.skipSelfTest with
    | true => exact conclude_outcome c styled rfl rfl hsettled
    | false =>
      obtain ⟨report, s, hself, htree, hcwd'⟩ := selfTest_keeps (ε := Abort) hc scratch
        ((Session.mk t cwd []).tell told) hcwd
      simp only [Bool.not_false, if_true]
      rw [Act.runIn_bind, hself]
      exact conclude_outcome c styled htree hcwd' hsettled
  · unfold perform outcome settled
    rw [Act.runIn_bind, hr]
    exact ⟨rfl, rfl⟩

end Invocation

/-! ## The whole command -/

namespace Command

variable {s : Surroundings} {words : List Bytes} {i : Invocation} {filter : LogFilter}

/-- **A command that comes to its work comes to its outcome.** -/
theorem run_of_read (hcwd : s.tree.get? s.cwd = some .dir)
    (hread : Invocation.read words = .ok i)
    (hfilter : LogFilter.read s.logFilter i.logLimit = .ok filter) :
    (run s words).status = (i.outcome s.tree s.cwd).1.toOption.getD 1 ∧
      (run s words).tree = (i.outcome s.tree s.cwd).2 := by
  obtain ⟨hresult, htree⟩ := i.perform_outcome hcwd s.scratch s.styled
  simp only [run, hread, hfilter, worked]
  rw [hresult, htree]
  cases (i.outcome s.tree s.cwd).1 <;> exact ⟨rfl, rfl⟩

/-- **The tree that a command leaves.** A command that does not come to its work leaves the tree as
it was. -/
theorem tree_run (hcwd : s.tree.get? s.cwd = some .dir) (words : List Bytes) :
    (run s words).tree = s.tree ∨
      ∃ i, Invocation.read words = .ok i ∧ (run s words).tree = (i.outcome s.tree s.cwd).2 := by
  cases hread : Invocation.read words with
  | error stop =>
    refine .inl ?_
    rw [run, hread]
    cases stop <;> rfl
  | ok i =>
    cases hfilter : LogFilter.read s.logFilter i.logLimit with
    | error split =>
      refine .inl ?_
      simp only [run, hread, hfilter]
      rfl
    | ok filter => exact .inr ⟨i, rfl, (run_of_read hcwd hread hfilter).2⟩

end Command

end SourceCoding
