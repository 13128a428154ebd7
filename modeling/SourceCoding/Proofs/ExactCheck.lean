import SourceCoding.Proofs.Recognition
import SourceCoding.Proofs.Treatment

/-!
# The check of an encoding name is exact

A name is reported as unrecognised if the line with it is no declaration. The line that is checked
has no line feed at its end, which the inserted line has, and nothing keeps a name from having line
feeds in it: then several lines are inserted, and a declaration may stand on the second of them. The
report is right all the same. Behind an interpreter directive what is inserted begins on the second
line of the content, so its own second line does not count there.

## Main results

* `isCompliant_insertDeclaration_iff`: which texts make every content compliant
* `runIn_patch_of_compliant`: a compliant content is left as it is
* `recognition_exact`: a name is reported if and only if some content stays without a declaration
-/

namespace SourceCoding

theorem unrecognised_mem_codingIssues {coding : String} (h : coding ≠ "") :
    Issue.unrecognised coding ∈ codingIssues coding ↔
      isDeclaration (Bytes.ofString (declarationText coding)) = false := by
  have hne : coding.toList ≠ [] := fun hnil => h (String.toList_eq_nil_iff.1 hnil)
  rw [codingIssues, if_neg hne, List.mem_append, List.mem_append]
  constructor
  · rintro ((hm | hm) | hm)
    · split at hm <;> simp at hm
    · split at hm <;> simp at hm
    · by_contra hd
      rw [Bool.not_eq_false] at hd
      simp [hd] at hm
  · intro hd
    right
    simp [hd]

/-- Behind an interpreter directive the first line of what is inserted decides. -/
theorem isCompliant_insertDeclaration_directive (text : Bytes) :
    isCompliant (insertDeclaration (text ++ [Bytes.lineFeed]) [0x23, 0x21]) =
      isDeclaration text := by
  have hdirective : isDeclaration [0x23, 0x21] = false := by decide
  rw [insertDeclaration_of_directive (by decide), isCompliant, isDeclaration_append_lineFeed,
    isDeclaration_firstLine, hdirective,
    Bytes.afterFirstLine_append_lineFeed (Bytes.lineFeed_not_mem_firstLine _), List.append_assoc]
  exact isDeclaration_append_lineFeed text _

/-- **A text makes every content compliant if and only if its first line is a declaration.** -/
theorem isCompliant_insertDeclaration_iff {text : Bytes} :
    (∀ content, isCompliant (insertDeclaration (text ++ [Bytes.lineFeed]) content)) ↔
      isDeclaration text := by
  constructor
  · intro h
    rw [← isCompliant_insertDeclaration_directive]
    exact h _
  · intro h content
    exact isCompliant_insertDeclaration_of h content

/-- **A compliant content is left as it is**, in either mode. -/
theorem runIn_patch_of_compliant {p : Patcher} {s : Session} {path : Path} {content : Bytes}
    (hread : s.tree.read s.cwd path = .ok content)
    (hslot : s.tree.read s.cwd (p.store.backupPath path) = .error .notFound)
    (hf : p.store.strikes .pending path = false) (hc : isCompliant content) :
    (p.patch path).runIn s = (.ok ⟨path, .alreadyCompliant, false⟩,
      s.tell [.storeCalled .pending path, .foundCompliant path]) := by
  have hpending : (p.store.pending path).runIn s =
      (.ok none, s.tell [.storeCalled .pending path]) := by
    rw [runIn_pending, hf, hslot]
    rfl
  have hreconcile : ∀ es, (p.reconcile path none).runIn (s.tell es) = (.ok content, s.tell es) := by
    intro es
    rw [Patcher.reconcile, runIn_readSource, Session.tree_tell, Session.cwd_tell, hread]
    rfl
  rw [Patcher.patch, Act.runIn_bind, hpending]
  dsimp only
  rw [Act.runIn_bind, hreconcile]
  simp [Patcher.settle, hc]

/-- **The check of an encoding name is exact.** A name that is not empty is reported as unrecognised
if and only if some content with the inserted line is not compliant. With a configuration without
issues every content gets compliant, and patching it again leaves it as it is. -/
theorem recognition_exact (c : Config) (hne : c.coding ≠ "") :
    (Issue.unrecognised c.coding ∉ codingIssues c.coding ↔
      ∀ content, isCompliant (insertDeclaration c.declaration content)) ∧
    (c.Valid → ∀ content, isCompliant (insertDeclaration c.declaration content) ∧
      isCompliant (c.fixed content) ∧ c.fixed (c.fixed content) = c.fixed content ∧
      ∀ (mode : Mode) (s : Session) (f : Path), s.tree.read s.cwd f = .ok (c.fixed content) →
        s.tree.read s.cwd ((BackupStore.ofConfig c).backupPath f) = .error .notFound →
        ((Patcher.ofConfig c mode).patch f).runIn s = (.ok ⟨f, .alreadyCompliant, false⟩,
          s.tell [.storeCalled .pending f, .foundCompliant f])) := by
  constructor
  · rw [unrecognised_mem_codingIssues hne, Bool.not_eq_false, Config.declaration_eq,
      isCompliant_insertDeclaration_iff]
  · intro hc content
    refine ⟨hc.isCompliant_insertDeclaration content, hc.isCompliant_fixed content,
      hc.fixed_fixed content, ?_⟩
    intro mode s f hread hslot
    exact runIn_patch_of_compliant hread hslot rfl (hc.isCompliant_fixed content)

/-- A name with a line feed, behind which a declaration of its own stands: it is reported, since not
every content gets compliant. -/
theorem recognition_exact_lines :
    let c : Config := { coding := "x -*-\n# coding: utf-8" }
    c.coding ≠ "" ∧ Issue.unrecognised c.coding ∈ codingIssues c.coding ∧
      isCompliant (insertDeclaration c.declaration []) ∧
      ¬ ∀ content, isCompliant (insertDeclaration c.declaration content) := by
  intro c
  have hne : c.coding ≠ "" := by decide
  have hreported : Issue.unrecognised c.coding ∈ codingIssues c.coding := by decide +kernel
  refine ⟨hne, hreported, by decide +kernel, ?_⟩
  intro hall
  exact (recognition_exact c hne).1.2 hall hreported

end SourceCoding
