import SourceCoding.Proofs.Linkless

/-!
# Contents survive

Passes may fail at any point, in either mode and any number of times, and no content is lost. What
counts as the content of a source is that of its backup, or its own where there is no backup. This
content stays what it was, until it is replaced for good by the content with its declaration.

## Main definitions

* `Session.logical?`: the content that counts
* `Desk.Keeps`: a desk has a content still, or the fixed content for good
* `Pass.runs`: one pass after another
* `Pass.Tends`: where a pass stands with a source

## Main results

* `Desk.Keeps.turn`: a turn keeps every content that a desk keeps
* `Steady.run_fixes`: a source without a failure on record is fixed
* `Config.separate_iff`: when no backup is named like a source
* `content_survives`: over any sequence of passes the content that counts stays or is fixed
-/

namespace SourceCoding

/-! ## The content that counts -/

/-- The bytes of the file that a path leads to, however long the path is. -/
def Tree.bytesOf? (t : Tree) (cwd : Location) (path : Path) : Option Bytes :=
  match t.follow .use linkLimit (Tree.start cwd path) path.steps with
  | .ok l => (Tree.contentOf (t.get? l)).toOption
  | .error _ => none

/-- **The content that counts**: the bytes of the backup of a source if there is one, and otherwise
those of the source. -/
def Session.logical? (s : Session) (c : Config) (path : Path) : Option Bytes :=
  (s.tree.bytesOf? s.cwd ((BackupStore.ofConfig c).backupPath path)).or
    (s.tree.bytesOf? s.cwd path)

theorem Tree.Enters.bytesOf? {t : Tree} {cwd d : Location} {path : Path} {n : Bytes}
    (h : t.Enters cwd path d n) (ht : t.LinkFree) :
    t.bytesOf? cwd path = (Tree.contentOf (t.get? (d ++ [n]))).toOption := by
  unfold Tree.bytesOf?
  by_cases hn : n.length ≤ nameLimit
  · rw [h.follow_name hn (ht _)]
  · rw [h.follow_tooLong (Nat.lt_of_not_le hn)]
    cases hg : t.get? (d ++ [n]) with
    | none => rfl
    | some e => exact absurd (length_le_of_isName (Tree.isName_of_get? hg n (by simp))) hn

theorem Desk.counted_eq (d : Desk) :
    d.counted = (Tree.contentOf d.backup).toOption.or (Tree.contentOf d.source).toOption := by
  rcases d with ⟨_ | ⟨_ | _ | _⟩, _ | ⟨_ | _ | _⟩⟩ <;> rfl

/-- Where no links are, the content that counts is found on the desk of the source. -/
theorem logical?_eq {s : Session} {c : Config} {path : Path} {d : Location} {n : Bytes}
    (hc : c.Valid) (ht : s.tree.LinkFree) (h : s.tree.Enters s.cwd path d n) :
    s.logical? c path = (s.tree.deskAt c.suffix d n).counted := by
  have hslot : s.tree.Enters s.cwd ((BackupStore.ofConfig c).backupPath path) d (n ++ c.suffix) :=
    h.append hc.slash_not_mem_suffix
  rw [Desk.counted_eq, Session.logical?, h.bytesOf? ht, hslot.bytesOf? ht]
  rfl

/-! ## Contents on a desk -/

/-- **A desk keeps a content**: it still counts, or the fixed content is there for good. -/
def Desk.Keeps (d : Desk) (c : Config) (content : Bytes) : Prop :=
  d.counted = some content ∨ d = ⟨some (.file (c.fixed content)), none⟩

section

variable {c : Config} {p : Patcher} {path : Path} {d : Desk} {content : Bytes}

theorem Patcher.fixed_eq (h : p.declaration = c.declaration) (content : Bytes) :
    p.fixed content = c.fixed content := by
  rw [Patcher.fixed, Config.fixed, h]

/-- **A turn keeps every content that a desk keeps.** -/
theorem Desk.Keeps.turn (h : d.Keeps c content) (hc : c.Valid)
    (hp : p.declaration = c.declaration) : (p.turn path d).desk.Keeps c content := by
  rcases h with h | rfl
  · cases hm : p.mode with
    | check => exact .inl ((turn_of_check path d hm).1.symm ▸ h)
    | apply =>
      rcases turn_of_apply path d hm with
        ⟨-, -, hd⟩ | ⟨b, hb, -, -, ⟨-, -, hd | ⟨hback, -⟩⟩ | ⟨-, hd⟩⟩
      · exact .inl (hd.symm ▸ h)
      · obtain rfl := Option.some.inj (hb.symm.trans h)
        exact .inl (hd.symm ▸ rfl)
      · obtain rfl := Option.some.inj (hb.symm.trans h)
        exact .inl (by simp [Desk.counted, hback])
      · obtain rfl := Option.some.inj (hb.symm.trans h)
        exact .inr (by rw [hd, Patcher.fixed_eq hp])
  · rw [(turn_of_settled p path (hc.isCompliant_fixed content)).1]
    exact .inr rfl

/-- Whichever content counts, fixing it gives the fixed content. -/
theorem Desk.Keeps.fixed_of_counted {b : Bytes} (h : d.Keeps c content) (hc : c.Valid)
    (hb : d.counted = some b) : c.fixed b = c.fixed content := by
  rcases h with h | rfl
  · obtain rfl := Option.some.inj (hb.symm.trans h)
    rfl
  · obtain rfl : c.fixed content = b := Option.some.inj hb
    exact hc.fixed_fixed content

end

/-! ## Passes -/

/-- **One pass after another** below a directory. -/
def Pass.runs (root : Path) : List Pass → Session → Session
  | [], s => s
  | p :: ps, s => Pass.runs root ps ((p.run root).runIn s).2

/-- No backup of a source is named like a source. -/
def Config.Separate (c : Config) : Prop :=
  ∀ n, c.isSourceName n → c.isSourceName (n ++ c.suffix) = false

/-- **No backup is named like a source** if that of the shortest source is not. -/
theorem Config.separate_iff {c : Config} :
    c.Separate ↔ ¬ c.sourceEnding <:+ c.sourceEnding ++ c.suffix := by
  constructor
  · intro hsep hending
    have hshortest := hsep c.sourceEnding (List.isSuffixOf_iff_suffix.2 (List.suffix_refl _))
    rw [isSourceName, List.isSuffixOf_iff_suffix.2 hending] at hshortest
    cases hshortest
  · intro hending n hn
    rw [Bool.eq_false_iff]
    intro hn'
    exact hending (ending_of_append (List.isSuffixOf_iff_suffix.1 hn)
      (List.isSuffixOf_iff_suffix.1 hn'))

section

variable {c : Config} {p : Pass} {root path : Path} {d : Location} {n : Bytes} {t : Tree}
  {cwd : Location} {s : Session} {content : Bytes}

/-- What turns keep of the desk of a source is kept while another source is patched. -/
theorem Steady.desk_kept {P : Desk → Prop} (h : Steady t cwd s) (hc : c.Valid) (hsep : c.Separate)
    (hp : p.Follows c) (hP : ∀ path d, P d → P (p.patcher.turn path d).desk)
    (hn : c.isSourceName n) {g : Path} {d' : Location} {n' : Bytes} (hg : t.SourceAt cwd c g d' n')
    (hd : P (s.tree.deskAt c.suffix d n)) :
    P (((p.patcher.patch g).runIn s).2.tree.deskAt c.suffix d n) := by
  have hg' := hg.named
  have hkept := h.desk_kept_of_apart (d := d) (n := n) (hp.proper hc) hg.enters (hP g)
  rw [hp.suffix] at hkept
  -- Names of sources and names of backups are never equal, so the two desks share no place.
  refine hkept ?_ ?_ hd
  · rintro ⟨-, rfl⟩
    simp [hsep n' hg.named] at hn
  · rintro ⟨-, rfl⟩
    simp [hsep n hn] at hg'

/-- What turns keep of the desk of a source a pass keeps, however it ends. -/
theorem Steady.run_kept {P : Desk → Prop} (h : Steady t cwd s) (hc : c.Valid) (hsep : c.Separate)
    (hp : p.Follows c) (hP : ∀ path d, P d → P (p.patcher.turn path d).desk)
    (hn : c.isSourceName n) (root : Path) (hd : P (s.tree.deskAt c.suffix d n)) :
    Steady t cwd ((p.run root).runIn s).2 ∧
      P (((p.run root).runIn s).2.tree.deskAt c.suffix d n) := by
  obtain ⟨hs, hd'⟩ := hp.run_kept_at hc h.linkFree root
    (fun g _ d' n' s₁ hat hs hd₁ => hs.desk_kept hc hsep hp hP hn hat hd₁) hd
  exact ⟨⟨hs.cwd_eq.trans h.cwd_eq, hs.linkFree, hs.dirs.trans h.dirs⟩, hd'⟩

theorem Steady.runs_kept {P : Desk → Prop} {ps : List Pass} (h : Steady t cwd s) (hc : c.Valid)
    (hsep : c.Separate) (hps : ∀ p ∈ ps, p.Follows c)
    (hP : ∀ p ∈ ps, ∀ path d, P d → P (p.patcher.turn path d).desk) (hn : c.isSourceName n)
    (root : Path) (hd : P (s.tree.deskAt c.suffix d n)) :
    Steady t cwd (Pass.runs root ps s) ∧ P ((Pass.runs root ps s).tree.deskAt c.suffix d n) := by
  induction ps generalizing s with
  | nil => exact ⟨h, hd⟩
  | cons p ps ih =>
    obtain ⟨h', hd'⟩ := h.run_kept hc hsep (hps p List.mem_cons_self) (hP p List.mem_cons_self) hn
      root hd
    exact ih h' (fun q hq => hps q (List.mem_cons_of_mem _ hq))
      (fun q hq => hP q (List.mem_cons_of_mem _ hq)) hd'

/-- **Where a pass stands with a source**: its desk keeps a content, which is fixed once the source
has been treated without a failure on record. -/
structure Pass.Tends (p : Pass) (c : Config) (path : Path) (d : Location) (n content : Bytes)
    (done : List Path) (S : Summary) (t : Tree) : Prop where
  /-- The desk keeps the content. -/
  keeps : (t.deskAt c.suffix d n).Keeps c content
  /-- The source is fixed if its turn has come and has not failed. -/
  fixed : path ∈ done → path ∉ S.failures.map SkippedSource.path →
    p.patcher.store.Usable path n ∧
      t.deskAt c.suffix d n = ⟨some (.file (c.fixed content)), none⟩

theorem Steady.tends_step {done : List Path} {S S' : Summary} {s' : Session} {g : Path}
    {d' : Location} {n' : Bytes} (h : Steady t cwd s) (hc : c.Valid) (hsep : c.Separate)
    (hp : p.Follows c) (hm : p.mode = .apply) (hf : t.SourceAt cwd c path d n)
    (hg : t.SourceAt cwd c g d' n') (ht : p.Tends c path d n content done S s.tree)
    (hr : (p.step S g).runIn s = (.ok S', s')) :
    Steady t cwd s' ∧ p.Tends c path d n content (done ++ [g]) S' s'.tree := by
  have hs' := (h.patch (hp.proper hc) hg.enters).1
  have hk' := h.desk_kept (P := fun d => d.Keeps c content) hc hsep hp
    (fun _ _ hk => hk.turn hc hp.declaration) hf.named hg ht.keeps
  have hdone' : path ∈ done → path ∉ S.failures.map SkippedSource.path →
      p.patcher.store.Usable path n ∧ ((p.patcher.patch g).runIn s).2.tree.deskAt c.suffix d n =
        ⟨some (.file (c.fixed content)), none⟩ := by
    intro hin hout
    obtain ⟨hu, hd⟩ := ht.fixed hin hout
    refine ⟨hu, h.desk_kept (P := fun d => d = _) hc hsep hp ?_ hf.named hg hd⟩
    rintro path _ rfl
    exact (turn_of_settled _ path (hc.isCompliant_fixed content)).1
  rcases Pass.step_eq_ok hr with ⟨o, s₁, hpatch, rfl, rfl⟩ | ⟨e, s₁, hpatch, rfl, rfl⟩ <;>
    rw [hpatch] at hs' hk' hdone'
  · refine ⟨hs'.tell _, hk', fun hin hout => ?_⟩
    rw [Summary.failures_record] at hout
    rcases List.mem_append.1 hin with hin | hin
    · exact hdone' hin hout
    · obtain rfl := List.mem_singleton.1 hin
      obtain ⟨rfl, rfl⟩ := Tree.enters_unique hg.enters hf.enters
      obtain ⟨hu, -, b, hb, hdesk⟩ := h.patch_eq_ok (hp.proper hc) hm hg.enters hpatch
      rw [hp.suffix] at hb hdesk
      refine ⟨hu, hdesk.trans ?_⟩
      rw [Patcher.fixed_eq hp.declaration, ht.keeps.fixed_of_counted hc hb]
  · refine ⟨hs'.tell _, hk', fun hin hout => ?_⟩
    simp only [Summary.recordFailure, List.map_append, List.mem_append, not_or, List.map_cons,
      List.map_nil, List.mem_singleton] at hout
    rcases List.mem_append.1 hin with hin | hin
    · exact hdone' hin hout.1
    · exact absurd (List.mem_singleton.1 hin) hout.2

/-- **A source that a pass has not put on record as failed** is fixed for good. -/
theorem Steady.run_fixes {summary : Summary} {s' : Session} (h : Steady t cwd s) (hc : c.Valid)
    (hsep : c.Separate) (hp : p.Follows c) (hm : p.mode = .apply)
    (hf : s.tree.SourceAt s.cwd c path d n)
    (hd : (s.tree.deskAt c.suffix d n).Keeps c content)
    (hr : (p.run root).runIn s = (.ok summary, s'))
    (hmem : path ∈ (s.tree.survey s.cwd c root).sources)
    (hfail : path ∉ summary.failures.map SkippedSource.path) :
    p.patcher.store.Usable path n ∧
      s'.tree.deskAt c.suffix d n = ⟨some (.file (c.fixed content)), none⟩ := by
  have hrun := Pass.run_ok
    (I := fun done S s₁ => Steady s.tree s.cwd s₁ ∧ p.Tends c path d n content done S s₁.tree)
    (fun done S s₁ es hI => ⟨hI.1.tell es, hI.2⟩) ?_ hr ⟨.refl h.linkFree, hd, by simp⟩
  · exact hrun.2.2.fixed (hp.survey s.tree s.cwd root ▸ hmem) hfail
  · rintro done g rest S s₁ S' s₂ hfiles ⟨hs, ht⟩ hstep
    have hg : g ∈ (s.tree.survey s.cwd c root).sources := by
      rw [← hp.survey, hfiles]
      simp
    obtain ⟨d', n', hat⟩ := Tree.exists_sourceAt hg
    exact hs.tends_step hc hsep hp hm hf hat ht hstep

/-- On a fixed desk the source can be read, and nothing is found under the path of the backup. -/
theorem Steady.read_of_fixed {b : BackupStore} {content : Bytes} (h : Steady t cwd s)
    (he : t.Enters cwd path d n) (hb : b.Proper) (hu : b.Usable path n)
    (hd : s.tree.deskAt b.suffix d n = ⟨some (.file content), none⟩) :
    s.tree.read s.cwd path = .ok content ∧
      s.tree.inspect s.cwd (b.backupPath path) = .error .notFound := by
  have hseat := (h.enters he).seated hb h.linkFree hu
  obtain ⟨hsource, hbackup⟩ := Desk.mk.injEq .. ▸ hd
  refine ⟨?_, hseat.slot.inspect_none hbackup⟩
  rw [hseat.read, hsource]
  rfl

/-- **No content is lost over any sequence of passes.** A source found at first has a content that
counts. After any passes, in either mode and with any faults, the content that counts is still the
same or it is fixed; once fixed it stays so; and where a pass that may change sources ends without
putting a source it found on record as failed, the source holds the fixed content and has no
backup. -/
theorem content_survives {f : Path} (hc : c.Valid) (hsep : c.Separate) (ht : s.tree.LinkFree)
    (hf : f ∈ (s.tree.survey s.cwd c root).sources) :
    ∃ content, s.logical? c f = some content ∧ ∀ ps : List Pass, (∀ p ∈ ps, p.Follows c) →
      let s₁ := Pass.runs root ps s
      (s₁.logical? c f = some content ∨ s₁.logical? c f = some (c.fixed content)) ∧
      (s₁.logical? c f = some (c.fixed content) → ∀ qs : List Pass, (∀ p ∈ qs, p.Follows c) →
        (Pass.runs root qs s₁).logical? c f = some (c.fixed content)) ∧
      ∀ (p : Pass) (summary : Summary) (s₂ : Session), p.Follows c → p.mode = .apply →
        (p.run root).runIn s₁ = (.ok summary, s₂) →
        f ∈ (s₁.tree.survey s₁.cwd c root).sources →
        f ∉ summary.failures.map SkippedSource.path →
        s₂.tree.read s₂.cwd f = .ok (c.fixed content) ∧
          s₂.tree.inspect s₂.cwd ((BackupStore.ofConfig c).backupPath f) = .error .notFound := by
  obtain ⟨d, n, b, hat, hb⟩ := Tree.exists_desk ht hf
  have hlogical : ∀ {s' : Session}, Steady s.tree s.cwd s' →
      s'.logical? c f = (s'.tree.deskAt c.suffix d n).counted := fun hs =>
    logical?_eq hc hs.linkFree (hs.enters hat.enters)
  obtain ⟨content, hcontent⟩ : ∃ content, (s.tree.deskAt c.suffix d n).counted = some content := by
    unfold Desk.counted
    rw [hb]
    split <;> simp_all
  refine ⟨content, (hlogical (.refl ht)).trans hcontent, fun ps hps => ?_⟩
  have hkeeps : ∀ content, ∀ p : Pass, p.Follows c → ∀ path d, Desk.Keeps d c content →
      (p.patcher.turn path d).desk.Keeps c content :=
    fun _ p hp _ _ hk => hk.turn hc hp.declaration
  obtain ⟨hs₁, hk₁⟩ := (Steady.refl ht).runs_kept hc hsep hps
    (fun p hp => hkeeps content p (hps p hp)) hat.named root (.inl hcontent)
  refine ⟨?_, fun hfixed qs hqs => ?_, fun p summary s₂ hp hm hr hmem hfail => ?_⟩
  · rw [hlogical hs₁]
    exact hk₁.imp_right fun hd => by rw [hd]; rfl
  · -- The fixed content is its own fixed content, so it is kept like any other.
    obtain ⟨hs₂, hk₂⟩ := (Steady.refl hs₁.linkFree).runs_kept hc hsep hqs
      (fun p hp => hkeeps (c.fixed content) p (hqs p hp)) hat.named root
      (.inl ((hlogical hs₁).symm.trans hfixed))
    rw [hlogical ⟨hs₂.cwd_eq.trans hs₁.cwd_eq, hs₂.linkFree, hs₂.dirs.trans hs₁.dirs⟩]
    rcases hk₂ with hcount | hd
    · exact hcount
    · rw [hd, hc.fixed_fixed]
      rfl
  · obtain ⟨d', n', hat₁⟩ := Tree.exists_sourceAt hmem
    obtain ⟨rfl, rfl⟩ := Tree.enters_unique hat₁.enters (hs₁.enters hat.enters)
    obtain ⟨hu, hd⟩ := hs₁.run_fixes hc hsep hp hm hat₁ hk₁ hr hmem hfail
    have hs₂ := (hs₁.run_kept hc hsep hp (hkeeps content p hp) hat.named root hk₁).1
    rw [hr] at hs₂
    rw [← hp.suffix] at hd
    have hread := hs₂.read_of_fixed hat.enters (hp.proper hc) hu hd
    rwa [hp.backupPath] at hread

/-- The default suffix `.checker` does not end in the default ending `.py`. -/
theorem separate_default : ({} : Config).Separate :=
  Config.separate_iff.2 (by decide)

/-- Of two sources one is torn and has a leftover backup. A pass fails on both of them, a second one
only inspects them, and the last one fixes both. -/
theorem content_survives_of_leftover :
    let t := ((Tree.lone (Bytes.ofString "a.py") (Bytes.ofString "x")).put
      [Bytes.ofString "a.py.checker"] (.file (Bytes.ofString "x = 1"))).put
      [Bytes.ofString "b.py"] (.file (Bytes.ofString "y = 2"))
    let s₁ := Pass.runs (Path.ofString "/")
      [⟨{}, .apply, [⟨.store, Path.ofString "/a.py"⟩, ⟨.discard, Path.ofString "/b.py"⟩]⟩,
        ⟨{}, .check, []⟩] ⟨t, [], []⟩
    ∃ summary s₂, (Pass.run ⟨{}, .apply, []⟩ (Path.ofString "/")).runIn s₁ = (.ok summary, s₂) ∧
      ∀ x ∈ [(Path.ofString "/a.py", Bytes.ofString "x = 1"),
          (Path.ofString "/b.py", Bytes.ofString "y = 2")],
        Session.logical? ⟨t, [], []⟩ {} x.1 = some x.2 ∧
        (s₁.logical? {} x.1 = some x.2 ∨
          s₁.logical? {} x.1 = some (({} : Config).fixed x.2)) ∧
        s₂.tree.read s₂.cwd x.1 = .ok (({} : Config).fixed x.2) ∧
        s₂.tree.inspect s₂.cwd ((BackupStore.ofConfig {}).backupPath x.1) = .error .notFound := by
  intro t s₁
  have ht : t.LinkFree := ((Tree.linkFree_lone _ _).put (by simp)).put (by simp)
  have hfollows : ∀ p ∈ ([⟨{}, .apply, [⟨.store, Path.ofString "/a.py"⟩,
      ⟨.discard, Path.ofString "/b.py"⟩]⟩, ⟨{}, .check, []⟩] : List Pass), p.Follows {} := by
    intro p hp
    simp only [List.mem_cons, List.not_mem_nil, or_false] at hp
    rcases hp with rfl | rfl <;> exact ⟨false, rfl⟩
  have hfailures : ((Pass.run ⟨{}, .apply, []⟩ (Path.ofString "/")).runIn s₁).1.toOption.map
      Summary.failures = some [] := by decide +kernel
  obtain ⟨summary, s₂, hr, hfail⟩ := Act.exists_runIn_of_map hfailures
  refine ⟨summary, s₂, hr, fun x hx => ?_⟩
  have hfound : x.1 ∈ (t.survey [] {} (Path.ofString "/")).sources ∧
      x.1 ∈ (s₁.tree.survey s₁.cwd {} (Path.ofString "/")).sources ∧
      Session.logical? ⟨t, [], []⟩ {} x.1 = some x.2 := by
    simp only [List.mem_cons, List.not_mem_nil, or_false] at hx
    rcases hx with rfl | rfl <;> decide +kernel
  obtain ⟨hf, hf₁, hlogical⟩ := hfound
  obtain ⟨content, hcontent, hpasses⟩ :=
    content_survives (s := ⟨t, [], []⟩) Config.valid_default separate_default ht hf
  obtain rfl := Option.some.inj (hlogical.symm.trans hcontent)
  obtain ⟨hkept, -, hfixed⟩ := hpasses _ hfollows
  obtain ⟨hread, hbackup⟩ :=
    hfixed ⟨{}, .apply, []⟩ summary s₂ ⟨false, rfl⟩ rfl hr hf₁ (by simp [hfail])
  exact ⟨hlogical, hkept, hread, hbackup⟩

end

end SourceCoding
