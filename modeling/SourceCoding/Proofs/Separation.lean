import SourceCoding.Proofs.Apart
import SourceCoding.Proofs.Collected
import SourceCoding.Proofs.Survival

/-!
# Sources taken for backups

The settings are checked one by one, and each of them may be in order while the extension, with the
suffix of backups after it, ends in the extension again. Then the backup of a source has the name of
a source, and a source that has this name is taken for the backup: it is restored into the other one
and removed. With all other settings no source is ever taken for a backup. And whatever the settings
are, a pass without faults leaves every source its own content as long as no source stands in the
place of a backup.

## Main definitions

* `Config.Confusable`: a source and its backup can both have names of sources

## Main results

* `collect_apart_iff`: when no source is ever the backup of another one
* `run_keeps_own`: a pass without faults leaves every source its own content
* `separation_exact`: both together
* `source_taken_for_backup`: a source that is lost
-/

namespace SourceCoding

/-- **A source and its backup can both have names of sources.** The shortest source is the extension
with its dot, and its backup has the shortest name that could be a source's as well. -/
def Config.Confusable (c : Config) : Prop :=
  c.sourceEnding <:+ c.sourceEnding ++ c.suffix ∧ isName (c.sourceEnding ++ c.suffix)

instance (c : Config) : Decidable c.Confusable :=
  inferInstanceAs (Decidable (_ ∧ _))

/-! ## Names of sources and of backups -/

theorem isName_of_subset {m n : Bytes} (h : isName n) (hsub : m ⊆ n) (hlen : m.length ≤ n.length)
    (hne : m ≠ []) (hdot : m ≠ dot) (hdots : m ≠ dotDot) : isName m := by
  simp only [isName, Bool.and_eq_true, decide_eq_true_eq, Bool.not_eq_true',
    List.contains_eq_mem, decide_eq_false_iff_not] at h ⊢
  obtain ⟨⟨⟨-, hslash⟩, hzero⟩, hlimit⟩ := h
  refine ⟨⟨⟨⟨⟨hne, hdot⟩, hdots⟩, ?_⟩, ?_⟩, Nat.le_trans hlen hlimit⟩
  · exact fun hm => hslash (hsub hm)
  · exact fun hm => hzero (hsub hm)

namespace Config.Valid

variable {c : Config}

theorem extension_head (h : c.Valid) : c.extension.toList.head? ≠ some '.' := by
  simp only [Config.Valid, issues, List.append_eq_nil_iff] at h
  intro hdot
  simp [hdot] at h

theorem sourceEnding_ne (h : c.Valid) : c.sourceEnding ≠ dot ∧ c.sourceEnding ≠ dotDot := by
  have hext : Bytes.ofString c.extension ≠ [] := ne_nil_of_nameIssues h.issues_nil.2.1
  have hending : c.sourceEnding = 0x2E :: Bytes.ofString c.extension := by
    rw [sourceEnding, Bytes.ofString_append]
    rfl
  rw [hending]
  constructor
  · simpa [dot] using hext
  · intro hdots
    obtain ⟨-, htail⟩ := List.cons_eq_cons.1 hdots
    cases hlist : c.extension.toList with
    | nil => simp [Bytes.ofString, hlist] at hext
    | cons x rest =>
      obtain ⟨b, bs, hx⟩ := List.exists_cons_of_ne_nil (@String.utf8EncodeChar_ne_nil x)
      rw [Bytes.ofString, hlist, List.flatMap_cons, hx, List.cons_append] at htail
      obtain ⟨hb, -⟩ := List.cons_eq_cons.1 htail
      have hmem : b ∈ String.utf8EncodeChar x := by simp [hx]
      have hcode := Bytes.eq_of_mem_utf8EncodeChar hmem (by rw [hb]; decide)
      obtain rfl : x = '.' := Char.toNat_inj.1 (by rw [hcode, hb]; rfl)
      exact h.extension_head (by simp [hlist])

theorem two_le_length_sourceEnding (h : c.Valid) : 2 ≤ c.sourceEnding.length := by
  have hext := List.length_pos_of_ne_nil (ne_nil_of_nameIssues h.issues_nil.2.1)
  have hlength : c.sourceEnding.length = 1 + (Bytes.ofString c.extension).length := by
    rw [sourceEnding, Bytes.ofString_append, List.length_append]
    rfl
  omega

theorem isName_sourceEnding (h : c.Valid) (hn : isName (c.sourceEnding ++ c.suffix)) :
    isName c.sourceEnding := by
  obtain ⟨hdot, hdots⟩ := h.sourceEnding_ne
  refine isName_of_subset hn (List.subset_append_left _ _) (by simp) ?_ hdot hdots
  have := h.two_le_length_sourceEnding
  exact List.ne_nil_of_length_pos (by omega)

/-- What ends a name of a source that is a backup as well is such a name itself. -/
theorem confusable_of_names {n : Bytes} (h : c.Valid) (hn : c.isSourceName n)
    (hn' : c.isSourceName (n ++ c.suffix)) (hname : isName (n ++ c.suffix)) : c.Confusable := by
  rw [isSourceName, List.isSuffixOf_iff_suffix] at hn hn'
  refine ⟨ending_of_append hn hn', ?_⟩
  obtain ⟨x, rfl⟩ := hn
  have hlen : 3 ≤ (c.sourceEnding ++ c.suffix).length := by
    have := h.two_le_length_sourceEnding
    have := List.length_pos_of_ne_nil h.suffix_ne_nil
    rw [List.length_append]
    omega
  rw [List.append_assoc] at hname
  refine isName_of_subset hname (List.subset_append_right _ _) (by simp) ?_ ?_ ?_ <;>
    · intro heq
      rw [heq] at hlen
      simp [dot, dotDot] at hlen

end Config.Valid

/-! ## What is collected -/

theorem collect_eq_ok {c : Config} {root : Path} {s : Session} {files : List Path} :
    ((collect c root).runIn s).1 = .ok files ↔
      (s.tree.survey s.cwd c root).obstacle = none ∧
        (s.tree.survey s.cwd c root).sources = files := by
  rw [runIn_collect]
  cases (s.tree.survey s.cwd c root).obstacle <;> simp

section

variable {c : Config} {root : Path} {s : Session}

theorem apart_of_not_confusable (hc : c.Valid) (hconf : ¬ c.Confusable) (t : Tree)
    (cwd : Location) (root : Path) : t.Apart cwd c root := by
  intro f hf g hg hfg
  obtain ⟨d, n, hat⟩ := Tree.exists_sourceAt hf
  obtain ⟨d', n', hat'⟩ := Tree.exists_sourceAt hg
  have henters : t.Enters cwd g d (n ++ c.suffix) := by
    rw [hfg]
    exact hat.enters.append hc.slash_not_mem_suffix
  obtain ⟨rfl, rfl⟩ := Tree.enters_unique hat'.enters henters
  exact hconf (hc.confusable_of_names hat.named hat'.named hat'.isName)

/-- Two files, the shortest source and one under the name of its backup. -/
def Tree.confused (c : Config) : Tree :=
  (Tree.empty.put [c.sourceEnding] (.file [])).put [c.sourceEnding ++ c.suffix] (.file [])

theorem Tree.get?_confused (hc : c.Valid) (hn : isName (c.sourceEnding ++ c.suffix))
    (l : Location) : (Tree.confused c).get? l =
      if l = [c.sourceEnding ++ c.suffix] then some (.file [])
      else if l = [c.sourceEnding] then some (.file []) else Tree.empty.get? l := by
  have hw : Tree.empty.Writable [c.sourceEnding] :=
    ⟨⟨_, by simp, hc.isName_sourceEnding hn⟩, by simp, by simp [Tree.get?, Tree.empty]⟩
  have hw' : (Tree.empty.put [c.sourceEnding] (.file [])).Writable
      [c.sourceEnding ++ c.suffix] := by
    refine ⟨⟨_, by simp, hn⟩, by simp, ?_⟩
    rw [Tree.get?_put hw]
    split <;> simp [Tree.get?, Tree.empty]
  rw [Tree.confused, Tree.get?_put hw', Tree.get?_put hw]

theorem collected_confused (hc : c.Valid) (hn : isName (c.sourceEnding ++ c.suffix)) {n : Bytes}
    (hnamed : c.isSourceName n) (hfile : (Tree.confused c).get? [n] = some (.file [])) :
    (Path.slashes 1).descendant [n] ∈
      ((Tree.confused c).survey [] c (Path.slashes 1)).sources ∧
    ((Tree.confused c).survey [] c (Path.slashes 1)).obstacle = none := by
  have hlocate := (Tree.confused c).locate_slashes [] .use (k := 1) (by simp) (by decide)
  have hpassed : ¬ (Tree.confused c).PassedOver [] c (Path.slashes 1) := by
    rintro ⟨-, hname⟩
    rw [Path.rootName_slashes] at hname
    have hslash : Bytes.slash ∈ Bytes.ofString c.excludedDir := by
      show Bytes.slash ∈ c.excludedName
      rw [← hname]
      simp
    exact slash_not_mem_of_nameIssues hc.issues_nil.2.2.1 hslash
  have hopen : (Tree.confused c).Openable [] c (Path.slashes 1) := by
    intro l names hl hm
    obtain rfl := Except.ok.inj (hlocate.symm.trans hl)
    obtain ⟨hne, hg⟩ := Tree.mem_below.1 hm
    rw [List.nil_append, Tree.get?_confused hc hn] at hg
    split_ifs at hg
    · cases hg
    · cases hg
    · simp [Tree.get?, Tree.empty, hne] at hg
  obtain ⟨ho, names, hsources, -, hmem⟩ := (Tree.survey_exact (c := c)
    (Path.isAbsolute_slashes (by simp)) ⟨.dir, Tree.entryAt_eq_ok.2 ⟨[], hlocate, by simp⟩⟩).1
    (.inr hopen)
  have hcollected : (Tree.confused c).Collected [] c (Path.slashes 1) ([] ++ [n]) := by
    refine .below hlocate hpassed ?_ (by simp) (.inl ⟨[], hfile⟩) hnamed
    intro k hk
    simp [List.prefix_nil.1 hk]
  refine ⟨?_, ho⟩
  rw [hsources]
  exact List.mem_map.2 ⟨[n], (hmem [n]).2 hcollected, rfl⟩

/-- **When no source is ever the backup of another one.** -/
theorem collect_apart_iff (hc : c.Valid) :
    (∀ (s : Session) (root : Path) (files : List Path), ((collect c root).runIn s).1 = .ok files →
      ∀ f ∈ files, ∀ g ∈ files, g ≠ (BackupStore.ofConfig c).backupPath f) ↔ ¬ c.Confusable := by
  constructor
  · rintro hall ⟨hending, hn⟩
    obtain ⟨hf, ho⟩ := collected_confused hc hn (List.isSuffixOf_iff_suffix.2 (List.suffix_refl _))
      (by simp [Tree.get?_confused hc hn])
    obtain ⟨hg, -⟩ := collected_confused hc hn (List.isSuffixOf_iff_suffix.2 hending)
      (by simp [Tree.get?_confused hc hn])
    refine hall ⟨Tree.confused c, [], []⟩ _ _ (collect_eq_ok.2 ⟨ho, rfl⟩) _ hf _ hg ?_
    exact (Path.append_descendant _ [] _ _).symm
  · intro hconf s root files hcollect
    obtain ⟨-, rfl⟩ := collect_eq_ok.1 hcollect
    exact apart_of_not_confusable hc hconf s.tree s.cwd root

/-! ## What a pass does to sources -/

/-- **A turn without faults leaves a source as it is, or fixed.** -/
theorem turn_of_file {p : Patcher} {f : Path} {d : Desk} {own content : Bytes}
    (hm : p.mode = .apply) (hf : ∀ point, p.store.strikes point f = false)
    (hsource : d.source = some (.file own)) (hcount : d.counted = some content) :
    (p.turn f d).desk = d ∨ (p.turn f d).desk = ⟨some (.file (p.fixed content)), none⟩ := by
  cases hb : Tree.contentOf d.backup with
  | ok saved =>
    have hplain : Plain d.backup := contentOf_eq_ok hb ▸ plain_file saved
    exact .inr (turn_of_no_fault f hm hf hcount (by simp [hsource]) hplain).2
  | error e =>
    by_cases hnone : d.backup = none
    · exact .inr (turn_of_no_fault f hm hf hcount (by simp [hsource]) (hnone ▸ plain_none)).2
    · have hne : e ≠ .notFound := by
        rintro rfl
        rcases hback : d.backup with _ | ⟨_ | _ | _⟩ <;> simp_all [Tree.contentOf]
      exact .inl (turn_of_refused f (hf .pending) hb hne).2

/-- **A pass without faults leaves every source its own content**, where no source is the backup of
another one: what it held, or the content that counted for it with a declaration. -/
theorem run_keeps_own {p : Pass} (hc : c.Valid) (hp : p.Follows c) (hm : p.mode = .apply)
    (hf : p.faults = []) (ht : s.tree.LinkFree) (hap : s.tree.Apart s.cwd c root) {f : Path}
    (hmem : f ∈ (s.tree.survey s.cwd c root).sources) :
    ∃ own content, s.tree.bytesOf? s.cwd f = some own ∧ s.logical? c f = some content ∧
      let s' := ((p.run root).runIn s).2
      (s'.tree.bytesOf? s'.cwd f = some own ∨
        s'.tree.bytesOf? s'.cwd f = some (c.fixed content)) := by
  obtain ⟨d, n, own, hat, hown⟩ := Tree.exists_desk ht hmem
  obtain ⟨content, hcount⟩ : ∃ content, (s.tree.deskAt c.suffix d n).counted = some content := by
    unfold Desk.counted
    rw [hown]
    split <;> simp_all
  -- Turns keep a desk that is as it was at first or that holds the fixed content.
  have hkept := hap.run_kept (P := fun e => e = s.tree.deskAt c.suffix d n ∨
    e = ⟨some (.file (c.fixed content)), none⟩) hc hp ht ?_ hmem hat.enters (.inl rfl)
  · obtain ⟨hs, hdesk⟩ := hkept
    have hbytes : ∀ {t : Tree}, t.LinkFree → t.Enters s.cwd f d n →
        t.bytesOf? s.cwd f = (Tree.contentOf (t.deskAt c.suffix d n).source).toOption :=
      fun ht he => he.bytesOf? ht
    refine ⟨own, content, ?_, (logical?_eq hc ht hat.enters).trans hcount, ?_⟩
    · rw [hbytes ht hat.enters, hown]
      rfl
    · have he := hs.enters hat.enters
      rw [hs.cwd_eq] at he
      dsimp only
      rw [hs.cwd_eq, hbytes hs.linkFree he]
      rcases hdesk with hdesk | hdesk <;> rw [hdesk]
      · exact .inl (by rw [hown]; rfl)
      · exact .inr rfl
  · rintro e (rfl | rfl)
    · rw [← Patcher.fixed_eq hp.declaration content]
      exact turn_of_file hm (Pass.strikes_of_no_faults hf · f) hown hcount
    · exact .inr (turn_of_settled _ f (hc.isCompliant_fixed content)).1

/-- **When no source is taken for a backup.** With settings without issues no source that is
collected is ever the backup of another one, if and only if the extension with the suffix after it
is no name that ends in the extension. In a tree in which no source is the backup of another one, a
pass without faults deletes no source and gives none the content of another one: a source holds in
the end what it held, or the content that counted for it with a declaration. -/
theorem separation_exact (hc : c.Valid) :
    ((∀ (s : Session) (root : Path) (files : List Path), ((collect c root).runIn s).1 = .ok files →
      ∀ f ∈ files, ∀ g ∈ files, g ≠ (BackupStore.ofConfig c).backupPath f) ↔ ¬ c.Confusable) ∧
    ∀ (p : Pass) (s : Session) (root : Path), p.Follows c → p.mode = .apply → p.faults = [] →
      s.tree.LinkFree → s.tree.Apart s.cwd c root →
      ∀ f ∈ (s.tree.survey s.cwd c root).sources,
        ∃ own content, s.tree.bytesOf? s.cwd f = some own ∧ s.logical? c f = some content ∧
          let s' := ((p.run root).runIn s).2
          (s'.tree.bytesOf? s'.cwd f = some own ∨
            s'.tree.bytesOf? s'.cwd f = some (c.fixed content)) := by
  refine ⟨collect_apart_iff hc, ?_⟩
  intro p s root hp hm hf ht hap f hmem
  exact run_keeps_own hc hp hm hf ht hap hmem

/-- With the default settings no source is the backup of another one, and a source with a backup
gets the content of the backup, not that of the other source. -/
theorem separation_exact_default :
    ({} : Config).Valid ∧ ¬ ({} : Config).Confusable ∧
    let t := ((Tree.lone (Bytes.ofString "a.py") (Bytes.ofString "x = 1")).put
      [Bytes.ofString "a.py.checker"] (.file (Bytes.ofString "y = 2"))).put
      [Bytes.ofString "b.py"] (.file (Bytes.ofString "z = 3"))
    ∃ own content, t.bytesOf? [] (Path.ofString "/a.py") = some own ∧
      Session.logical? ⟨t, [], []⟩ {} (Path.ofString "/a.py") = some content ∧
      let s' := ((Pass.run ⟨{}, .apply, []⟩ (Path.ofString "/")).runIn ⟨t, [], []⟩).2
      (s'.tree.bytesOf? s'.cwd (Path.ofString "/a.py") = some own ∨
        s'.tree.bytesOf? s'.cwd (Path.ofString "/a.py") = some (({} : Config).fixed content)) := by
  have hexact := separation_exact Config.valid_default
  have hconf : ¬ ({} : Config).Confusable := by decide +kernel
  refine ⟨Config.valid_default, hconf, ?_⟩
  intro t
  have ht : t.LinkFree := ((Tree.linkFree_lone _ _).put (by simp)).put (by simp)
  have hap : t.Apart [] {} (Path.ofString "/") := by
    intro f hf g hg
    refine hexact.1.2 hconf ⟨t, [], []⟩ (Path.ofString "/") _ (collect_eq_ok.2 ⟨?_, rfl⟩) f hf g hg
    decide +kernel
  exact hexact.2 ⟨{}, .apply, []⟩ ⟨t, [], []⟩ (Path.ofString "/") ⟨false, rfl⟩ rfl rfl ht hap
    (Path.ofString "/a.py") (by decide +kernel)

/-- The suffix of backups is the extension with its dot: the settings have no issues, and yet one of
two sources is restored into the other one and removed. -/
theorem source_taken_for_backup :
    let c : Config := { backupSuffix := ".py" }
    let t := (Tree.lone (Bytes.ofString "a.py") (Bytes.ofString "x = 1\n")).put
      [Bytes.ofString "a.py.py"] (.file (Bytes.ofString "y = 2\n"))
    let s' := ((Pass.run ⟨c, .apply, []⟩ (Path.ofString "/")).runIn ⟨t, [], []⟩).2
    c.Valid ∧ t.LinkFree ∧
      ((collect c (Path.ofString "/")).runIn ⟨t, [], []⟩).1.toOption =
        some [Path.ofString "/a.py", Path.ofString "/a.py.py"] ∧
      Path.ofString "/a.py.py" = (BackupStore.ofConfig c).backupPath (Path.ofString "/a.py") ∧
      s'.tree.read s'.cwd (Path.ofString "/a.py") =
        .ok (c.fixed (Bytes.ofString "y = 2\n")) ∧
      s'.tree.read s'.cwd (Path.ofString "/a.py.py") = .error .notFound := by
  intro c t s'
  refine ⟨by decide, (Tree.linkFree_lone _ _).put (by simp), ?_, ?_, ?_, ?_⟩ <;> decide +kernel

end

end SourceCoding
