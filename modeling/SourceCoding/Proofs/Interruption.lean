import SourceCoding.Proofs.Linkless

/-!
# Interrupted writes

A pass can be cut off while it writes a backup or a source. Then a file holds a part of what was to
be written, and the next pass finds it so. A source that was cut off is restored from its complete
backup. A backup that was cut off is taken for complete, since any file under its path is: the
source becomes what the part is fixed to, and the rest of the content is lost.

## Main results

* `fixed_eq_insertDeclaration_iff`: the parts of a content that do no harm in the place of all of it
* `patch_of_backup`: a source is restored from any file under the path of its backup
* `patch_after_interruption`: what the next pass makes of a source whose treatment was cut off
-/

namespace SourceCoding

/-! ## Parts of a content -/

/-- A directive without a line feed gets one. -/
theorem length_insertDeclaration (declaration content : Bytes) :
    (insertDeclaration declaration content).length = declaration.length + content.length +
      if hasDirective content ∧ Bytes.lineFeed ∉ content then 1 else 0 := by
  cases hd : hasDirective content with
  | false => simp [insertDeclaration_of_not_directive hd]
  | true =>
    rw [insertDeclaration_of_directive hd]
    cases ha : content.afterFirstLine with
    | none =>
      have hfirst := Bytes.firstLine_eq_self ha
      have hmem := Bytes.lineFeed_not_mem_firstLine content
      rw [hfirst] at hmem ⊢
      simp [hmem]
      omega
    | some rest =>
      have happ := Bytes.firstLine_append ha
      have hmem : Bytes.lineFeed ∈ content := by
        rw [happ]
        simp
      have hlen := congrArg List.length happ
      simp only [List.length_append, List.length_cons] at hlen
      simp [hmem]
      omega

theorem Config.declaration_ne_nil (c : Config) : c.declaration ≠ [] := by
  rw [Config.declaration_eq]
  simp

/-- A directive that is cut off before its line feed gets the line feed with the declaration. -/
theorem fixed_of_directive {c : Config} {torn : Bytes} (hd : hasDirective torn)
    (hl : Bytes.lineFeed ∉ torn) (hc : isCompliant (torn ++ [Bytes.lineFeed]) = false) :
    c.fixed torn = insertDeclaration c.declaration (torn ++ [Bytes.lineFeed]) := by
  have hline : isDeclaration torn = false := by
    rw [isCompliant, Bool.or_eq_false_iff, isDeclaration_append_lineFeed] at hc
    exact hc.1
  have hnone := Bytes.afterFirstLine_of_not_mem hl
  have ht : isCompliant torn = false := by simp [isCompliant, hline, hnone]
  rw [Config.fixed_of_not_compliant ht, insertDeclaration_of_directive hd,
    insertDeclaration_of_directive (hasDirective_of_part (List.prefix_append _ _) hd),
    Bytes.firstLine_append_lineFeed, Bytes.afterFirstLine_append_lineFeed hl,
    Bytes.firstLine_eq_self hnone, hnone]
  rfl

/-- Insertions of one length are insertions into contents that differ by a line feed at most. -/
theorem eq_of_length_insertDeclaration {declaration torn rest : Bytes}
    (h : (insertDeclaration declaration torn).length =
      (insertDeclaration declaration (torn ++ rest)).length) :
    rest = [] ∨ rest = [Bytes.lineFeed] ∧ hasDirective torn ∧ Bytes.lineFeed ∉ torn := by
  rw [length_insertDeclaration, length_insertDeclaration, List.length_append] at h
  by_cases hd : hasDirective torn ∧ Bytes.lineFeed ∉ torn
  · have hd' := hasDirective_of_part (List.prefix_append torn rest) hd.1
    rw [if_pos hd] at h
    by_cases hl : Bytes.lineFeed ∈ rest
    · -- One byte is missing, and the line feed is among what is missing.
      rw [if_neg (by simp [hl])] at h
      obtain ⟨x, rfl⟩ := List.length_eq_one_iff.1 (by omega : rest.length = 1)
      obtain rfl := List.mem_singleton.1 hl
      exact .inr ⟨rfl, hd⟩
    · rw [if_pos ⟨hd', by simp [hd.2, hl]⟩] at h
      exact .inl (List.length_eq_zero_iff.1 (by omega))
  · rw [if_neg hd] at h
    exact .inl (List.length_eq_zero_iff.1 (by omega))

/-- **A part of a content is fixed to the content with its declaration** only if it is all of it, or
all of an interpreter directive but its line feed. -/
theorem fixed_eq_insertDeclaration_iff {c : Config} {torn content : Bytes} (h : torn <+: content)
    (hc : isCompliant content = false) :
    c.fixed torn = insertDeclaration c.declaration content ↔
      torn = content ∨ content = torn ++ [Bytes.lineFeed] ∧ hasDirective torn ∧
        Bytes.lineFeed ∉ torn := by
  obtain ⟨rest, rfl⟩ := h
  constructor
  · intro he
    cases ht : isCompliant torn with
    | true =>
      -- A part alone is shorter than the whole with a declaration.
      have hlen := length_insertDeclaration c.declaration (torn ++ rest)
      have hpos := List.length_pos_of_ne_nil c.declaration_ne_nil
      rw [Config.fixed_of_compliant ht] at he
      rw [← he, List.length_append] at hlen
      omega
    | false =>
      rw [Config.fixed_of_not_compliant ht] at he
      rcases eq_of_length_insertDeclaration (congrArg List.length he) with rfl | ⟨rfl, hd⟩
      · exact .inl (List.append_nil torn).symm
      · exact .inr ⟨rfl, hd⟩
  · rintro (he | ⟨he, hd, hl⟩)
    · rw [← he] at hc ⊢
      exact Config.fixed_of_not_compliant hc
    · rw [he] at hc ⊢
      exact fixed_of_directive hd hl hc

/-! ## The pass after an interruption -/

section

variable {c : Config} {s : Session} {f : Path} {content : Bytes}

/-- A file that can be read, and nothing under the path of its backup. -/
theorem exists_places (hc : c.Valid) (ht : s.tree.LinkFree) (hcwd : s.tree.get? s.cwd = some .dir)
    (hread : s.tree.read s.cwd f = .ok content)
    (hslot : s.tree.inspect s.cwd ((BackupStore.ofConfig c).backupPath f) = .error .notFound) :
    ∃ l k, Seated (BackupStore.ofConfig c) f l k s.tree s.cwd ∧
      s.tree.Holds l k ⟨some (.file content), none⟩ := by
  cases hl : s.tree.locate s.cwd .use f with
  | error e => simp [Tree.read_of_locate_error hl] at hread
  | ok l =>
    rw [Tree.read_of_locate hl] at hread
    have hfile := contentOf_eq_ok hread
    obtain ⟨front, d, n, hsteps, hfront, hd, e, he, hel⟩ :=
      (Tree.resolves_of_locate hl).exists_last (Tree.get?_start hcwd f) hfile
    obtain rfl := hel fun q hq => ht _ q (hq ▸ he)
    have henters : s.tree.Enters s.cwd f d n := ⟨hd, front, hsteps, hfront⟩
    by_cases hu : (BackupStore.ofConfig c).Usable f n
    · have hseat := henters.seated (hc.proper []) ht hu
      refine ⟨_, _, hseat, hfile, ?_⟩
      cases hg : s.tree.get? (d ++ [n ++ (BackupStore.ofConfig c).suffix]) with
      | none => rfl
      | some e' =>
        rw [Tree.inspect, Tree.entryAt_eq_ok.2 ⟨_, hseat.slot.locate .inspect, hg⟩] at hslot
        simp at hslot
    · obtain ⟨hne, he'⟩ := henters.locate_of_not_usable (hc.proper []) hu
      rw [Tree.inspect_of_locate_error (he' .inspect)] at hslot
      exact absurd (Except.error.inj hslot) hne

/-- **From any backup that is a file the source is restored and fixed**, whatever file is in the
place of the source. -/
theorem patch_of_backup {l k : Location} {t' : Tree} {x saved : Bytes}
    (h : Seated (BackupStore.ofConfig c) f l k s.tree s.cwd)
    (hd : s.tree.Holds l k ⟨some (.file content), none⟩)
    (hs : t'.Shows s.tree l k ⟨some (.file x), some (.file saved)⟩) :
    ∃ s', ((Patcher.ofConfig c .apply).patch f).runIn (s.withTree t') =
        (.ok ⟨f, if isCompliant saved then .alreadyCompliant else .patched, true⟩, s') ∧
      s'.tree.read s'.cwd f = .ok (c.fixed saved) ∧
      s'.tree.inspect s'.cwd ((BackupStore.ofConfig c).backupPath f) = .error .notFound := by
  have h' : Seated (BackupStore.ofConfig c) f l k t' s.cwd :=
    h.mono hs (hd.1 ▸ plain_file content) (hd.2 ▸ plain_none) (plain_file saved)
      (.inr (.inl ⟨x, rfl⟩))
  obtain ⟨hres, hdesk⟩ := turn_of_no_fault (p := .ofConfig c .apply) f
    (d := ⟨some (.file x), some (.file saved)⟩) (c := saved) rfl (fun _ => rfl) rfl (by simp)
    (plain_file saved)
  obtain ⟨t'', hr, hs''⟩ := comesTo_patch (p := .ofConfig c .apply) (s := s.withTree t') h' hs.holds
  rw [hdesk] at hs''
  have h'' : Seated (BackupStore.ofConfig c) f l k t'' s.cwd :=
    h'.mono hs'' (hs.holds.1 ▸ plain_file x) (hs.holds.2 ▸ plain_file saved) plain_none
      (.inr (.inl ⟨_, rfl⟩))
  rw [hres] at hr
  refine ⟨_, hr, ?_, h''.slot.inspect_none hs''.holds.2⟩
  exact h''.read.trans (by rw [hs''.holds.1]; rfl)

/-- **The pass after an interruption.** A source that can be read, has no declaration and no backup
is being patched. If writing the backup was cut off, the next pass succeeds and fixes the part that
was written, which does no harm only if the part is all of the content or an interpreter directive
without its line feed. If the backup was complete, the next pass succeeds and inserts the
declaration, however much of the source was written. No backup is left in either case. -/
theorem patch_after_interruption (hc : c.Valid) (ht : s.tree.LinkFree)
    (hcwd : s.tree.get? s.cwd = some .dir) (hread : s.tree.read s.cwd f = .ok content)
    (hnon : isCompliant content = false)
    (hslot : s.tree.inspect s.cwd ((BackupStore.ofConfig c).backupPath f) = .error .notFound) :
    (∀ torn, torn <+: content → ∃ t' o s',
      s.tree.write s.cwd ((BackupStore.ofConfig c).backupPath f) torn = .ok t' ∧
      ((Patcher.ofConfig c .apply).patch f).runIn (s.withTree t') = (.ok o, s') ∧
      s'.tree.read s'.cwd f = .ok (c.fixed torn) ∧
      s'.tree.inspect s'.cwd ((BackupStore.ofConfig c).backupPath f) = .error .notFound ∧
      (c.fixed torn = insertDeclaration c.declaration content ↔
        torn = content ∨ content = torn ++ [Bytes.lineFeed] ∧ hasDirective torn ∧
          Bytes.lineFeed ∉ torn)) ∧
    ∀ torn, ∃ t₁ t₂ s',
      s.tree.write s.cwd ((BackupStore.ofConfig c).backupPath f) content = .ok t₁ ∧
      t₁.write s.cwd f torn = .ok t₂ ∧
      ((Patcher.ofConfig c .apply).patch f).runIn (s.withTree t₂) = (.ok ⟨f, .patched, true⟩, s') ∧
      s'.tree.read s'.cwd f = .ok (insertDeclaration c.declaration content) ∧
      s'.tree.inspect s'.cwd ((BackupStore.ofConfig c).backupPath f) = .error .notFound := by
  obtain ⟨l, k, h, hd⟩ := exists_places hc ht hcwd hread hslot
  have hwrite : ∀ b, ∃ t', s.tree.write s.cwd ((BackupStore.ofConfig c).backupPath f) b = .ok t' ∧
      t'.Shows s.tree l k ⟨some (.file content), some (.file b)⟩ := by
    intro b
    obtain ⟨t', hw, hu⟩ := h.slot.write (by simp [hd.2]) b
    exact ⟨t', hw, hu.shows_backup h.apart hd⟩
  constructor
  · intro torn htorn
    obtain ⟨t', hw, hs⟩ := hwrite torn
    obtain ⟨s', hr, hread', hslot'⟩ := patch_of_backup h hd hs
    exact ⟨t', _, s', hw, hr, hread', hslot', fixed_eq_insertDeclaration_iff htorn hnon⟩
  · intro torn
    obtain ⟨t₁, hw, hs⟩ := hwrite content
    have h₁ : Seated (BackupStore.ofConfig c) f l k t₁ s.cwd :=
      h.mono hs (hd.1 ▸ plain_file content) (hd.2 ▸ plain_none) (plain_file content)
        (.inl hd.1.symm)
    obtain ⟨t₂, hw₂, hu₂⟩ := h₁.write (by simp [hs.holds.1]) torn
    obtain ⟨s', hr, hread', hslot'⟩ :=
      patch_of_backup h hd ((hu₂.shows_source h.apart hs.holds).trans hs)
    rw [Config.fixed_of_not_compliant hnon] at hread'
    rw [hnon] at hr
    exact ⟨t₁, t₂, s', hw, hw₂, hr, hread', hslot'⟩

/-- The backup `x` of the content `x = 1` is taken for all of it; a complete backup repairs a source
that was emptied. -/
theorem patch_after_interruption_lone :
    (∃ t' o s', (Tree.lone (Bytes.ofString "a.py") (Bytes.ofString "x = 1")).write []
        ((BackupStore.ofConfig {}).backupPath (Path.ofString "/a.py")) (Bytes.ofString "x") =
        .ok t' ∧
      ((Patcher.ofConfig {} .apply).patch (Path.ofString "/a.py")).runIn ⟨t', [], []⟩ =
        (.ok o, s') ∧
      s'.tree.read s'.cwd (Path.ofString "/a.py") =
        .ok (({} : Config).fixed (Bytes.ofString "x"))) ∧
    ∃ t₁ t₂ s', (Tree.lone (Bytes.ofString "a.py") (Bytes.ofString "x = 1")).write []
        ((BackupStore.ofConfig {}).backupPath (Path.ofString "/a.py")) (Bytes.ofString "x = 1") =
        .ok t₁ ∧
      t₁.write [] (Path.ofString "/a.py") [] = .ok t₂ ∧
      ((Patcher.ofConfig {} .apply).patch (Path.ofString "/a.py")).runIn ⟨t₂, [], []⟩ =
        (.ok ⟨Path.ofString "/a.py", .patched, true⟩, s') ∧
      s'.tree.read s'.cwd (Path.ofString "/a.py") =
        .ok (insertDeclaration ({} : Config).declaration (Bytes.ofString "x = 1")) := by
  have hread : (Tree.lone (Bytes.ofString "a.py") (Bytes.ofString "x = 1")).read []
      (Path.ofString "/a.py") = .ok (Bytes.ofString "x = 1") := by decide
  obtain ⟨htorn, hwhole⟩ := patch_after_interruption (c := {})
    (s := ⟨Tree.lone (Bytes.ofString "a.py") (Bytes.ofString "x = 1"), [], []⟩)
    (f := Path.ofString "/a.py") Config.valid_default (Tree.linkFree_lone _ _) (Tree.get?_nil _)
    hread (by decide) (by decide)
  obtain ⟨t', o, s', hw, hr, hread, -⟩ := htorn (Bytes.ofString "x") (by decide)
  obtain ⟨t₁, t₂, s'', hw₁, hw₂, hr', hread', -⟩ := hwhole []
  exact ⟨⟨t', o, s', hw, hr, hread⟩, t₁, t₂, s'', hw₁, hw₂, hr', hread'⟩

/-- An empty file under the path of the backup is taken for the content, which is lost. -/
theorem content_lost_from_empty_backup :
    ((Tree.lone (Bytes.ofString "a.py") (Bytes.ofString "x = 1")).write []
        ((BackupStore.ofConfig {}).backupPath (Path.ofString "/a.py")) []).toOption.map
      (fun t => (((Patcher.ofConfig {} .apply).patch (Path.ofString "/a.py")).runIn
        ⟨t, [], []⟩).2.tree.read [] (Path.ofString "/a.py")) =
        some (.ok ({} : Config).declaration) ∧
    ({} : Config).declaration ≠
      insertDeclaration ({} : Config).declaration (Bytes.ofString "x = 1") := by
  decide +kernel

end

end SourceCoding
