import SourceCoding.Proofs.Commands
import SourceCoding.Proofs.Inspection

/-!
# Nothing is written unless a pass may change sources

A command that only inspects sources, that has no directory or one it refuses, or that has no
configuration leaves every entry of the tree as it was: sources, links and left backups alike. That
it tests itself before does not matter, as the self-test leaves no trace. The parts that treat
sources keep this by themselves, under any configuration and any faults.

## Main definitions

* `Invocation.Idle`: a command does not come to change sources

## Main results

* `Pass.run_of_relative`: a pass refuses a root that is not absolute
* `nothing_written`: what is left as it was
-/

namespace SourceCoding

/-- A pass refuses a root that is not absolute. -/
theorem Pass.run_of_relative (p : Pass) {root : Path} (h : root.isAbsolute = false) (s : Session) :
    (p.run root).runIn s = (.error (.collecting root (.relative root)), s) := by
  have hsurvey : s.tree.survey s.cwd p.config root = .refused (.relative root) := by
    simp [Tree.survey, h]
  rw [runIn_run, hsurvey]
  simp [Walk.refused]

namespace Invocation

variable {i : Invocation} {t : Tree} {cwd : Location}

/-- **A command does not come to change sources**: it only inspects them, or it has no directory or
one that is not absolute, or its configuration cannot be read, parsed or accepted. -/
def Idle (i : Invocation) (t : Tree) (cwd : Location) : Prop :=
  i.check = true ∨ (∀ root, i.directory = some root → root.isAbsolute = false) ∨
    ∃ a, i.settled t cwd = .error a

theorem outcome_of_idle (h : i.Idle t cwd) : (i.outcome t cwd).2 = t := by
  unfold outcome
  cases hsettled : i.settled t cwd with
  | error a => rfl
  | ok c =>
    cases hdir : i.directory with
    | none => rfl
    | some root =>
      dsimp only
      rcases h with hcheck | hroot | ⟨a, ha⟩
      · have hm : i.mode = .check := by simp [mode, hcheck]
        exact (Pass.run_of_check (p := ⟨c, i.mode, []⟩) hm root ⟨t, cwd, []⟩).1
      · rw [Pass.run_of_relative _ (hroot root hdir)]
      · simp [hsettled] at ha

end Invocation

/-- **Nothing is written unless a pass may change sources.** A command that only inspects, that has
no directory or one that is not absolute, or whose configuration fails leaves the tree as it was.
A pass that only inspects does so too, and so does the treatment of a source that is only inspected,
under every configuration and with every fault, whether it succeeds or fails. -/
theorem nothing_written :
    (∀ (s : Surroundings) (words : List Bytes), s.tree.get? s.cwd = some .dir →
      (∀ i, Invocation.read words = .ok i → i.Idle s.tree s.cwd) →
      (Command.run s words).tree = s.tree) ∧
    (∀ (p : Pass) (root : Path) (s : Session), p.mode = .check →
      ((p.run root).runIn s).2.tree = s.tree) ∧
    ∀ (p : Patcher) (f : Path) (s : Session), p.mode = .check →
      ((p.patch f).runIn s).2.tree = s.tree := by
  refine ⟨fun s words hcwd hidle => ?_, fun p root s hm => (Pass.run_of_check hm root s).1,
    fun p f s hm => ?_⟩
  · rcases Command.tree_run hcwd words with htree | ⟨i, hread, htree⟩
    · exact htree
    · rw [htree, Invocation.outcome_of_idle (hidle i hread)]
  · obtain ⟨told, hr⟩ := runIn_patch_of_check hm s f
    rw [hr]
    rfl

/-- A check of two sources, of which one has a backup and the backup of the other is a link that
leads nowhere, leaves both backups where they are. -/
theorem nothing_written_of_backups :
    let t := (((Tree.empty.put [Bytes.ofString "a.py"] (.file (Bytes.ofString "x = 1"))).put
      [Bytes.ofString "a.py.checker"] (.file (Bytes.ofString "y = 2"))).put
      [Bytes.ofString "b.py"] (.file (Bytes.ofString "z = 3"))).put
      [Bytes.ofString "b.py.checker"] (.link (Path.ofString "nowhere"))
    let p : Pass := ⟨{}, .check, [⟨.pending, Path.ofString "/b.py"⟩]⟩
    (Command.run ⟨t, [], Path.ofString "/scratch", false, ""⟩
      (["--check", "/"].map Bytes.ofString)).tree = t ∧
    ((p.run (Path.ofString "/")).runIn ⟨t, [], []⟩).2.tree = t ∧
    ((p.patcher.patch (Path.ofString "/a.py")).runIn ⟨t, [], []⟩).2.tree = t := by
  intro t p
  obtain ⟨hcommand, hpass, hpatch⟩ := nothing_written
  refine ⟨hcommand _ _ rfl fun i hread => ?_, hpass p _ ⟨t, [], []⟩ rfl,
    hpatch p.patcher _ ⟨t, [], []⟩ rfl⟩
  have hwords : Invocation.read (["--check", "/"].map Bytes.ofString) =
      .ok { directory := some (Path.ofString "/"), check := true } := by
    decide +kernel
  obtain rfl := Except.ok.inj (hread.symm.trans hwords)
  exact .inl rfl

end SourceCoding
