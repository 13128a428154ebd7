import SourceCoding.Proofs.Rehearsal
import SourceCoding.Proofs.Texts
import SourceCoding.Proofs.Treatment
import SourceCoding.Proofs.Workshop

/-!
# Every scenario passes

A configuration without issues passes its self-test wherever a scratch directory can be made and
written, if the names it makes can be names of entries. It does not matter what the names look like:
whether the excluded directory has the name of a source, or backups that of sources. Each scenario
finds its directory empty, so what it writes there is all that it can meet.

## Main definitions

* `Act.Answers`: an action comes to an answer
* `Config.Usable`: the names that a configuration makes can be names of entries
* `Tree.Hosts`: a scratch directory can be made and written
* `Scenario.Ready`: a source and its backup in a scratch directory, with what stands there

## Main results

* `Scenario.Ready.answers_patch`: a source that is patched has the fixed content
* `Scenario.play_passes`: a scenario passes in an empty directory
* `selfTest_passes`: all of them pass, and no trace is left
-/

namespace SourceCoding

/-! ## Actions that come to an answer -/

/-- **An action comes to an answer** in all sessions of one kind, and leaves one of another kind. -/
def Act.Answers {ε α : Type} (P : Session → Prop) (a : Act ε α) (x : α) (Q : Session → Prop) :
    Prop :=
  ∀ s, P s → ∃ s', a.runIn s = (.ok x, s') ∧ Q s'

section

variable {ε α β : Type} {P Q R : Session → Prop} {a : Act ε α} {f : α → Act ε β} {x : α} {y : β}

theorem Act.Answers.bind (ha : a.Answers P x Q) (hf : (f x).Answers Q y R) :
    (a >>= f).Answers P y R := by
  intro s hs
  obtain ⟨s₁, hr, hs₁⟩ := ha s hs
  obtain ⟨s₂, hr', hs₂⟩ := hf s₁ hs₁
  refine ⟨s₂, ?_, hs₂⟩
  rw [Act.runIn_bind, hr]
  exact hr'

theorem Act.Answers.mono {P' Q' : Session → Prop} (ha : a.Answers P x Q) (hP : ∀ s, P' s → P s)
    (hQ : ∀ s, Q s → Q' s) : a.Answers P' x Q' := by
  intro s hs
  obtain ⟨s', hr, hs'⟩ := ha s (hP s hs)
  exact ⟨s', hr, hQ s' hs'⟩

theorem Act.Answers.done (ha : a.Answers P x Q) : a.Answers P x fun _ => True :=
  ha.mono (fun _ h => h) fun _ _ => trivial

/-- An action that looks only answers in the session in which it finds itself. -/
theorem Act.answers_of_runIn (h : ∀ s, P s → a.runIn s = (.ok x, s)) : a.Answers P x P :=
  fun s hs => ⟨s, h s hs, hs⟩

/-- An operation that is carried out answers in the session with the tree that it leaves. -/
theorem Act.answers_change {op : Operation} {failure : SystemError → ε}
    (h : ∀ s, P s →
      ∃ t', s.tree.perform s.cwd op = .ok t' ∧ ∀ told, Q ((s.withTree t').tell told)) :
    (change op failure).Answers P () Q := by
  intro s hs
  obtain ⟨t', ht, hQ⟩ := h s hs
  exact ⟨_, by rw [runIn_change, ht], hQ _⟩

namespace Trial

theorem answers_expect {condition : Bool} (h : condition) (text : String) :
    (expect condition text).Answers P () P :=
  Act.answers_of_runIn fun s _ => by rw [expect, if_pos h, Act.runIn_pure]

theorem answers_ofAct {a : Act Failure α} (ha : a.Answers P x Q) : (ofAct a).Answers P x Q := by
  intro s hs
  obtain ⟨s', hr, hs'⟩ := ha s hs
  refine ⟨s', ?_, hs'⟩
  rw [ofAct, Act.runIn_bind, Act.runIn_attempt, hr]
  rfl

end Trial

end

/-! ## The names of a configuration -/

namespace Bytes

theorem ofString_injective : Function.Injective ofString := by
  intro s s' h
  have := Utf8.decode?_ofString s
  rw [h, Utf8.decode?_ofString] at this
  exact (Option.some.inj this).symm

end Bytes

/-- **The names that a configuration makes can be names of entries.** -/
structure Config.Usable (c : Config) : Prop where
  /-- No name has a zero byte. -/
  noZero : ∀ name ∈ [c.extension, c.excludedDir, c.backupSuffix], (0 : UInt8) ∉ Bytes.ofString name
  /-- The excluded directory is neither the one it is in nor the one above. -/
  noDots : c.excludedDir ≠ "." ∧ c.excludedDir ≠ ".."
  /-- No name is too long. -/
  short : ∀ name ∈ [c.excludedDir, "test." ++ c.extension,
    "test." ++ c.extension ++ c.backupSuffix], (Bytes.ofString name).length ≤ nameLimit

/-- **A scratch directory can be made and written**, and its name is not the excluded one. -/
structure Tree.Hosts (t : Tree) (cwd : Location) (c : Config) (scratch : Path) : Prop where
  /-- Its path is absolute. -/
  absolute : scratch.isAbsolute
  /-- It can be made. -/
  made : ∃ t', t.makeDirectory cwd scratch = .ok t'
  /-- It is not passed over as an excluded directory. -/
  unexcluded : scratch.fileName? ≠ some c.excludedName
  /-- What is written in it has no path that is too long. -/
  short : ∀ path ∈ [(BackupStore.ofConfig c).backupPath (Scenario.sourcePath scratch c),
    Scenario.sourcePath (scratch.join (.ofString c.excludedDir)) c], path.bytes.length < pathLimit

/-- A segment that is a name is one that an entry may have, if the system takes its bytes. -/
theorem isName_of_segment {n : Bytes} (h : Path.Step.ofSegment? n = some (.name n))
    (hslash : Bytes.slash ∉ n) (hzero : (0 : UInt8) ∉ n) (hlen : n.length ≤ nameLimit) :
    isName n := by
  obtain ⟨-, hne, hdot, hdots⟩ := Path.ofSegment?_eq_name.1 h
  simp [isName, hne, hdot, hdots, hslash, hzero, hlen]

namespace Scenario

variable {c : Config} {t u : Tree} {cwd d l k : Location} {n b : Bytes} {scratch path : Path}
  {desk : Desk} {s : Session}

section

variable (hc : c.Valid) (hu : c.Usable)

include hc hu

theorem isName_excludedName : isName c.excludedName := by
  have hdot : Bytes.ofString c.excludedDir ≠ dot :=
    fun h => hu.noDots.1 (Bytes.ofString_injective (h.trans (by decide)))
  have hdots : Bytes.ofString c.excludedDir ≠ dotDot :=
    fun h => hu.noDots.2 (Bytes.ofString_injective (h.trans (by decide)))
  refine isName_of_segment (Path.ofSegment?_eq_name.2 ⟨rfl, ?_, hdot, hdots⟩)
    (slash_not_mem_of_nameIssues hc.issues_nil.2.2.1) (hu.noZero _ (by simp)) (hu.short _ (by simp))
  exact ne_nil_of_nameIssues hc.issues_nil.2.2.1

theorem isName_sourceName : isName (sourceName c) := by
  have hzero : (0 : UInt8) ∉ sourceName c := by
    rw [sourceName, Bytes.ofString_append, List.mem_append, not_or]
    exact ⟨by decide, hu.noZero c.extension (by simp)⟩
  exact isName_of_segment (ofSegment?_sourceName c) (slash_not_mem_sourceName hc) hzero
    (hu.short _ (by simp))

theorem isName_backupName : isName (sourceName c ++ c.suffix) := by
  have hname : sourceName c ++ c.suffix =
      sourceName { c with extension := c.extension ++ c.backupSuffix } := by
    simp [sourceName, Config.suffix]
  have hzero : (0 : UInt8) ∉ c.suffix := hu.noZero c.backupSuffix (by simp)
  have hlen : (sourceName c ++ c.suffix).length ≤ nameLimit := by
    rw [sourceName, Config.suffix, ← Bytes.ofString_append]
    exact hu.short _ (by simp)
  refine isName_of_segment ?_ ?_ ?_ hlen
  · rw [hname]
    exact ofSegment?_sourceName _
  · exact List.not_mem_append (slash_not_mem_sourceName hc) hc.slash_not_mem_suffix
  · refine List.not_mem_append (fun h => ?_) hzero
    have := isName_sourceName hc hu
    simp [isName, h] at this

end

/-! ## The paths of a scenario -/

section

variable (hc : c.Valid)

include hc

theorem sourcePath_eq (scratch : Path) :
    sourcePath scratch c = scratch.descendant ([] ++ [sourceName c]) :=
  Path.join_of_not_mem scratch (slash_not_mem_sourceName hc)

theorem backupPath_eq (scratch : Path) :
    (patcher c).store.backupPath (sourcePath scratch c) =
      scratch.descendant ([] ++ [sourceName c ++ c.suffix]) := by
  rw [sourcePath_eq hc, BackupStore.backupPath]
  show (scratch.child (sourceName c)).append c.suffix = scratch.child (sourceName c ++ c.suffix)
  unfold Path.child Path.append
  split <;> simp

theorem excludedPath_eq (scratch : Path) :
    scratch.join (.ofString c.excludedDir) = scratch.descendant ([] ++ [c.excludedName]) :=
  Path.join_of_not_mem scratch (slash_not_mem_of_nameIssues hc.issues_nil.2.2.1)

theorem excludedSource_eq (scratch : Path) :
    sourcePath (scratch.join (.ofString c.excludedDir)) c =
      scratch.descendant ([c.excludedName] ++ [sourceName c]) := by
  rw [sourcePath_eq hc, excludedPath_eq hc]
  rfl

end

theorem length_sourcePath (hh : t.Hosts cwd c scratch) :
    (sourcePath scratch c).bytes.length < pathLimit := by
  have h := hh.short _ List.mem_cons_self
  rw [BackupStore.backupPath, Path.bytes_append, List.length_append] at h
  omega

theorem length_excludedPath (hc : c.Valid) (hh : t.Hosts cwd c scratch) :
    (scratch.join (.ofString c.excludedDir)).bytes.length < pathLimit := by
  have h := hh.short _ (List.mem_cons_of_mem _ List.mem_cons_self)
  rw [sourcePath_eq hc] at h
  obtain ⟨front, hf, ⟨rfl, hnil⟩ | ⟨init, rfl, hinit⟩⟩ :=
    Path.bytes_child (scratch.join (.ofString c.excludedDir)) (sourceName c)
  · simp [hnil, pathLimit]
  · replace h : ((scratch.join (.ofString c.excludedDir)).child (sourceName c)).bytes.length <
        pathLimit := h
    rw [hf] at h
    rcases hinit with hinit | hinit <;> rw [hinit] <;> simp at h ⊢ <;> omega

/-- The walk does not pass over the scratch directory. -/
theorem rootName_ne_excludedName (hc : c.Valid) (hh : t.Hosts cwd c scratch) :
    scratch.rootName ≠ c.excludedName := by
  unfold Path.rootName
  cases hname : scratch.fileName? with
  | some name =>
    rintro rfl
    exact hh.unexcluded hname
  | none =>
    -- An absolute path has a slash, and the excluded name has none.
    intro h
    have hslash : Bytes.slash ∈ c.excludedName := by
      rw [← h]
      exact List.mem_of_mem_head? (by simpa [Path.isAbsolute] using hh.absolute)
    exact slash_not_mem_of_nameIssues hc.issues_nil.2.2.1 hslash

/-! ## What is collected in the directory -/

/-- **A session in which a new directory has certain entries**, and nothing else has changed. -/
structure Works (t : Tree) (cwd l : Location) (entries : List (Location × Entry)) (s : Session) :
    Prop where
  /-- The working directory is the one in which the new directory was made. -/
  cwd : s.cwd = cwd
  /-- The entries are those of the directory. -/
  tree : t.Furnished l entries s.tree

section

variable {front : Location} {m : Bytes} {entries : List (Location × Entry)}
  (hv : t.Makeable cwd scratch d n) (habs : scratch.isAbsolute)

include hv habs

theorem answers_write (hnames : ∀ x ∈ front ++ [m], isName x)
    (hlt : (scratch.descendant (front ++ [m])).bytes.length < pathLimit)
    (hfront : front = [] ∨ (front, .dir) ∈ entries) (hfree : ∀ e, (front ++ [m], e) ∉ entries)
    (content : String) :
    (Trial.write (scratch.descendant (front ++ [m])) content).Answers
      (Works t cwd (d ++ [n]) entries) ()
      (Works t cwd (d ++ [n])
        (Tree.insertListing (front ++ [m]) (.file (Bytes.ofString content)) entries)) := by
  refine Act.answers_change fun s hs => ?_
  obtain ⟨u, hw, hu⟩ := hs.tree.write hv habs hnames hlt hfront hfree (Bytes.ofString content)
  exact ⟨u, by rw [hs.cwd, Tree.perform, hw], fun _ => ⟨hs.cwd, hu⟩⟩

theorem answers_makeDirectory (hnames : ∀ x ∈ front ++ [m], isName x)
    (hlt : (scratch.descendant (front ++ [m])).bytes.length < pathLimit)
    (hfront : front = [] ∨ (front, .dir) ∈ entries) (hfree : ∀ e, (front ++ [m], e) ∉ entries) :
    (Trial.makeDirectory (scratch.descendant (front ++ [m]))).Answers
      (Works t cwd (d ++ [n]) entries) ()
      (Works t cwd (d ++ [n]) (Tree.insertListing (front ++ [m]) .dir entries)) := by
  refine Act.answers_change fun s hs => ?_
  obtain ⟨u, hw, hu⟩ := hs.tree.makeDirectory hv habs hnames hlt hfront hfree
  exact ⟨u, by rw [hs.cwd, Tree.perform, hw], fun _ => ⟨hs.cwd, hu⟩⟩

/-- What the walk notices at the entries is collected. -/
theorem answers_collect (findings : List Finding) (hname : scratch.rootName ≠ c.excludedName)
    (hsteps : ∀ u : Tree, entries.filterMap (u.notice cwd c scratch) = findings.map .ok) :
    (collect c scratch).Answers (Works t cwd (d ++ [n]) entries)
      (findings.filterMap Finding.source?) fun _ => True := by
  intro s hs
  have hsurvey := hs.tree.survey hv habs hname
  rw [hsteps, Walk.ofSteps_map_ok, ← hs.cwd] at hsurvey
  rw [runIn_collect, hsurvey]
  exact ⟨_, rfl, trivial⟩

end

section

variable (hc : c.Valid) (hu : c.Usable) (hv : t.Makeable cwd scratch d n)
  (hh : t.Hosts cwd c scratch)

include hc hu hv hh

/-- A source in the directory is collected. -/
theorem listsSources_passes :
    (listsSources.play scratch c).Answers (Works t cwd (d ++ [n]) []) () fun _ => True := by
  have hlen := length_sourcePath hh
  have hname := isName_sourceName hc hu
  have hending : c.isSourceName (sourceName c) := by
    rw [Config.isSourceName, List.isSuffixOf_iff_suffix]
    refine ⟨Bytes.ofString "test", ?_⟩
    rw [Config.sourceEnding, sourceName, ← Bytes.ofString_append, ← String.append_assoc]
    rfl
  show (do
    Trial.write (sourcePath scratch c) "loren ipsum line\nloren ipsum line\n"
    let files ← Trial.ofAct (collect c scratch)
    Trial.expect (files = [sourcePath scratch c]) _ : Trial Unit).Answers _ _ _
  rw [sourcePath_eq hc] at hlen ⊢
  refine (answers_write hv hh.absolute (by simpa using hname) hlen (.inl rfl) (by simp) _).bind ?_
  refine (Trial.answers_ofAct (answers_collect hv hh.absolute
    [.source (scratch.descendant [sourceName c])] (rootName_ne_excludedName hc hh)
    fun u => ?_)).bind (Trial.answers_expect (by simp [Finding.source?]) _)
  simp [Tree.insertListing, Tree.notice, hending]

/-- A source in the excluded directory is not, even if this directory has the name of a source. -/
theorem skipsExcluded_passes :
    (skipsExcluded.play scratch c).Answers (Works t cwd (d ++ [n]) []) () fun _ => True := by
  have hlen := length_excludedPath hc hh
  have hlen' := hh.short _ (List.mem_cons_of_mem _ List.mem_cons_self)
  have hname := isName_sourceName hc hu
  have hname' := isName_excludedName hc hu
  show (do
    Trial.makeDirectory (scratch.join (.ofString c.excludedDir))
    Trial.write (sourcePath (scratch.join (.ofString c.excludedDir)) c) "x = 1\n"
    let files ← Trial.ofAct (collect c scratch)
    Trial.expect files.isEmpty _ : Trial Unit).Answers _ _ _
  rw [excludedSource_eq hc] at hlen' ⊢
  rw [excludedPath_eq hc] at hlen ⊢
  refine (answers_makeDirectory hv hh.absolute (by simpa using hname') hlen (.inl rfl)
    (by simp)).bind ?_
  refine (answers_write hv hh.absolute (by simp [hname, hname']) hlen'
    (.inr (by simp [Tree.insertListing])) (by simp [Tree.insertListing]) _).bind ?_
  refine (Trial.answers_ofAct (answers_collect hv hh.absolute
    [.excluded (scratch.descendant [c.excludedName])] (rootName_ne_excludedName hc hh)
    fun u => ?_)).bind (Trial.answers_expect (by simp [Finding.source?]) _)
  simp [Tree.insertListing, Tree.notice]

end

/-! ## What is done to a source and its backup -/

/-- **A source and its backup have their places**, and a certain desk stands there. -/
structure Ready (c : Config) (path : Path) (l k : Location) (desk : Desk) (s : Session) : Prop where
  /-- The paths lead to the places. -/
  seated : Seated (patcher c).store path l k s.tree s.cwd
  /-- The desk stands there. -/
  holds : s.tree.Holds l k desk

/-- In an empty directory both places are free. -/
theorem Works.ready (h : Works t cwd (d ++ [n]) [] s) (hc : c.Valid) (hu : c.Usable)
    (hv : t.Makeable cwd scratch d n) (hh : t.Hosts cwd c scratch) :
    Ready c (sourcePath scratch c) (d ++ [n] ++ [sourceName c])
      (d ++ [n] ++ [sourceName c ++ c.suffix]) ⟨none, none⟩ s := by
  have hlen := length_sourcePath hh
  have hlen' := hh.short _ List.mem_cons_self
  have hslot := backupPath_eq hc scratch
  rw [show (BackupStore.ofConfig c).backupPath (sourcePath scratch c) = _ from hslot] at hlen'
  rw [sourcePath_eq hc] at hlen hslot ⊢
  refine ⟨⟨?_, ?_, .inl ?_⟩, h.tree.get?_eq_none (by simp) (by simp),
    h.tree.get?_eq_none (by simp) (by simp)⟩
  · simpa using hc.suffix_ne_nil
  · rw [hslot, h.cwd]
    exact h.tree.names_descendant hv hh.absolute (by simpa using isName_backupName hc hu) hlen'
      (.inl rfl)
  · rw [h.cwd]
    exact h.tree.names_descendant hv hh.absolute (by simpa using isName_sourceName hc hu) hlen
      (.inl rfl)

namespace Ready

section

variable (hsource : Plain desk.source) (hbackup : Plain desk.backup)

include hsource hbackup

theorem answers_write (content : String) :
    (Trial.write path content).Answers (Ready c path l k desk) ()
      (Ready c path l k { desk with source := some (.file (Bytes.ofString content)) }) := by
  refine Act.answers_change fun s ⟨hseat, hd⟩ => ?_
  have hl : Plain (s.tree.get? l) := hd.1 ▸ hsource
  have hk : Plain (s.tree.get? k) := hd.2 ▸ hbackup
  obtain ⟨t', ht, hu⟩ := hseat.write hl.ne_dir (Bytes.ofString content)
  have hs := hu.shows_source hseat.apart hd
  exact ⟨t', ht, fun _ => ⟨hseat.mono hs hl hk hbackup (.inr (.inl ⟨_, rfl⟩)), hs.holds⟩⟩

theorem answers_save (content : String) :
    (Trial.write ((patcher c).store.backupPath path) content).Answers (Ready c path l k desk) ()
      (Ready c path l k { desk with backup := some (.file (Bytes.ofString content)) }) := by
  refine Act.answers_change fun s ⟨hseat, hd⟩ => ?_
  have hl : Plain (s.tree.get? l) := hd.1 ▸ hsource
  have hk : Plain (s.tree.get? k) := hd.2 ▸ hbackup
  obtain ⟨t', ht, hu⟩ := hseat.slot.write hk.ne_dir (Bytes.ofString content)
  have hs := hu.shows_backup hseat.apart hd
  exact ⟨t', ht, fun _ => ⟨hseat.mono hs hl hk (plain_file _) (.inl hd.1.symm), hs.holds⟩⟩

/-- **A source that is patched has the fixed content**, and no backup is left. -/
theorem answers_patch (hb : desk.counted = some b) :
    ((patcher c).patch path).Answers (Ready c path l k desk)
      ⟨path, if isCompliant b then .alreadyCompliant else .patched, desk.backup.isSome⟩
      (Ready c path l k ⟨some (.file (c.fixed b)), none⟩) := by
  rintro s ⟨hseat, hd⟩
  have hl : Plain (s.tree.get? l) := hd.1 ▸ hsource
  have hk : Plain (s.tree.get? k) := hd.2 ▸ hbackup
  obtain ⟨t', hr, hs⟩ := comesTo_patch hseat hd
  obtain ⟨hresult, hdesk⟩ := turn_of_no_fault (p := patcher c) path rfl (fun _ => rfl) hb
    hsource.ne_dir hbackup
  rw [hresult] at hr
  rw [hdesk] at hs
  exact ⟨_, hr, hseat.mono hs hl hk plain_none (.inr (.inl ⟨_, rfl⟩)), hs.holds⟩

end

section

variable (hb : desk.source = some (.file b))

include hb

theorem answers_read : (Trial.read path).Answers (Ready c path l k desk) b
    (Ready c path l k desk) := by
  refine Act.answers_of_runIn fun s ⟨hseat, hd⟩ => ?_
  rw [Trial.read, Act.runIn_query, hseat.read, hd.1, hb]
  rfl

theorem answers_compliant : (compliant path).Answers (Ready c path l k desk) (isCompliant b)
    (Ready c path l k desk) := by
  refine Act.answers_of_runIn fun s ⟨hseat, hd⟩ => ?_
  rw [compliant, Act.runIn_map, runIn_readSource, hseat.read, hd.1, hb]
  rfl

theorem answers_expectContent {text : String} (htext : b = Bytes.ofString text) :
    (expectContent path text).Answers (Ready c path l k desk) () (Ready c path l k desk) := by
  have hread : (Trial.readText path).Answers (Ready c path l k desk) text
      (Ready c path l k desk) := by
    refine (answers_read hb).bind (Act.answers_of_runIn fun s _ => ?_)
    rw [htext, Utf8.decode?_ofString]
    rfl
  exact hread.bind (Trial.answers_expect (by simp) _)

end

theorem answers_exists? (hnone : desk.backup = none) :
    (Trial.exists? ((patcher c).store.backupPath path)).Answers (Ready c path l k desk) false
      (Ready c path l k desk) := by
  refine Act.answers_of_runIn fun s ⟨hseat, hd⟩ => ?_
  have hstatus : s.tree.status s.cwd ((patcher c).store.backupPath path) = .error .notFound := by
    simp [Tree.status, Tree.entryAt, hseat.slot.locate .use, hd.2, hnone, bind, Except.bind]
  rw [Trial.exists?, Act.runIn_bind, Act.runIn_get]
  simp [hstatus, Except.toOption]

end Ready

/-! ## The scenarios on one source -/

section

variable (l k : Location)

/-- A content is recognised as it should be. -/
theorem recognition_passes (c : Config) (scratch : Path) (name : String) {content : String}
    {verdict : Bool} (complaint : String) (h : isCompliant (Bytes.ofString content) = verdict) :
    ((recognition name content verdict complaint).play scratch c).Answers
      (Ready c (sourcePath scratch c) l k ⟨none, none⟩) () fun _ => True := by
  refine (Ready.answers_write plain_none plain_none content).bind ?_
  refine (Trial.answers_ofAct (Ready.answers_compliant rfl)).bind ?_
  exact (Trial.answers_expect (by simpa using h) complaint).done

/-- Without a directive the declaration comes first. -/
theorem fixed_ofString {text : String} (h : isCompliant (Bytes.ofString text) = false)
    (hd : hasDirective (Bytes.ofString text) = false) :
    c.fixed (Bytes.ofString text) = Bytes.ofString (c.declarationLine ++ text) := by
  rw [Config.fixed_of_not_compliant h, insertDeclaration_of_not_directive hd, Bytes.ofString_append]
  rfl

/-- A declaration is inserted. -/
theorem insertsDeclaration_passes (hc : c.Valid) (scratch : Path) :
    (insertsDeclaration.play scratch c).Answers
      (Ready c (sourcePath scratch c) l k ⟨none, none⟩) () fun _ => True := by
  have hplain : isCompliant (Bytes.ofString "loren ipsum line\nloren ipsum line\n") = false := by
    decide +kernel
  have hfixed := fixed_ofString (c := c) hplain (by decide +kernel)
  refine (Ready.answers_write plain_none plain_none _).bind ?_
  refine (Trial.answers_ofAct (Ready.answers_patch (plain_file _) plain_none rfl)).bind ?_
  refine (Trial.answers_expect (by simp [hplain]) _).bind ?_
  refine (Ready.answers_expectContent rfl hfixed).bind ?_
  refine (Trial.answers_ofAct (Ready.answers_compliant rfl)).bind ?_
  exact (Trial.answers_expect (hc.isCompliant_fixed _) _).done

/-- A directive stays on the first line. -/
theorem keepsDirective_passes (c : Config) (scratch : Path) :
    (keepsDirective.play scratch c).Answers
      (Ready c (sourcePath scratch c) l k ⟨none, none⟩) () fun _ => True := by
  have hfirst : (Bytes.ofString "#!/usr/bin/env python\nprint('ok')\n").firstLine ++
      [Bytes.lineFeed] = Bytes.ofString "#!/usr/bin/env python\n" := by decide +kernel
  have hrest : (Bytes.ofString "#!/usr/bin/env python\nprint('ok')\n").afterFirstLine =
      some (Bytes.ofString "print('ok')\n") := by decide +kernel
  have hfixed : c.fixed (Bytes.ofString "#!/usr/bin/env python\nprint('ok')\n") =
      Bytes.ofString ("#!/usr/bin/env python\n" ++ c.declarationLine ++ "print('ok')\n") := by
    rw [Config.fixed_of_not_compliant (by decide +kernel),
      insertDeclaration_of_directive (by decide +kernel), hrest, Bytes.ofString_append,
      Bytes.ofString_append, ← hfirst]
    simp [Config.declaration]
  refine (Ready.answers_write plain_none plain_none _).bind ?_
  refine (Trial.answers_ofAct (Ready.answers_patch (plain_file _) plain_none rfl)).bind ?_
  exact (Ready.answers_expectContent rfl hfixed).done

/-- What is patched is not patched again. -/
theorem isIdempotent_passes (hc : c.Valid) (scratch : Path) :
    (isIdempotent.play scratch c).Answers
      (Ready c (sourcePath scratch c) l k ⟨none, none⟩) () fun _ => True := by
  refine (Ready.answers_write plain_none plain_none _).bind ?_
  refine (Trial.answers_ofAct (Ready.answers_patch (plain_file _) plain_none rfl)).bind ?_
  refine (Ready.answers_read rfl).bind ?_
  refine (Trial.answers_ofAct (Ready.answers_patch (plain_file _) plain_none rfl)).bind ?_
  refine (Trial.answers_expect (by simp [hc.isCompliant_fixed]) _).bind ?_
  refine (Ready.answers_read rfl).bind ?_
  exact (Trial.answers_expect (by simp [hc.fixed_fixed]) _).done

/-- A source is restored from its backup and then patched. -/
theorem recovers_passes (c : Config) (scratch : Path) :
    (recovers.play scratch c).Answers
      (Ready c (sourcePath scratch c) l k ⟨none, none⟩) () fun _ => True := by
  have hfixed : c.fixed (Bytes.ofString "original\n") =
      Bytes.ofString (c.declarationLine ++ "original\n") :=
    fixed_ofString (by decide +kernel) (by decide +kernel)
  refine (Ready.answers_write plain_none plain_none _).bind ?_
  refine (Ready.answers_save (plain_file _) plain_none _).bind ?_
  refine (Trial.answers_ofAct (Ready.answers_patch (plain_file _) (plain_file _) rfl)).bind ?_
  refine (Trial.answers_expect rfl _).bind ?_
  refine (Ready.answers_expectContent rfl hfixed).bind ?_
  refine (Ready.answers_exists? rfl).bind ?_
  exact (Trial.answers_expect rfl _).done

end

/-! ## All scenarios -/

section

variable (hc : c.Valid) (hu : c.Usable)

include hc hu

/-- **A scenario passes in an empty directory.** -/
theorem play_passes (hv : t.Makeable cwd scratch d n) (hh : t.Hosts cwd c scratch) {sc : Scenario}
    (hsc : sc ∈ scenarios) :
    (sc.play scratch c).Answers (Works t cwd (d ++ [n]) []) () fun _ => True := by
  -- But for the two that collect, what matters are the places of the source and of its backup.
  have hready : ∀ {a : Trial Unit}, a.Answers (Ready c (sourcePath scratch c)
      (d ++ [n] ++ [sourceName c]) (d ++ [n] ++ [sourceName c ++ c.suffix]) ⟨none, none⟩) ()
      (fun _ => True) → a.Answers (Works t cwd (d ++ [n]) []) () fun _ => True :=
    fun ha => ha.mono (fun s hs => hs.ready hc hu hv hh) fun _ _ => trivial
  simp only [scenarios, List.mem_cons, List.not_mem_nil, or_false] at hsc
  rcases hsc with rfl | rfl | rfl | rfl | rfl | rfl | rfl | rfl | rfl | rfl
  · exact listsSources_passes hc hu hv hh
  · exact skipsExcluded_passes hc hu hv hh
  · exact hready (recognition_passes _ _ c scratch _ _ (by decide +kernel))
  · exact hready (recognition_passes _ _ c scratch _ _ (by decide +kernel))
  · exact hready (recognition_passes _ _ c scratch _ _ (by decide +kernel))
  · exact hready (recognition_passes _ _ c scratch _ _ (by decide +kernel))
  · exact hready (insertsDeclaration_passes _ _ hc scratch)
  · exact hready (keepsDirective_passes _ _ c scratch)
  · exact hready (isIdempotent_passes _ _ hc scratch)
  · exact hready (recovers_passes _ _ c scratch)

/-- **A scenario passes in a directory of its own.** -/
theorem playIn_passes (hh : s.tree.Hosts s.cwd c scratch) (hcwd : s.tree.get? s.cwd = some .dir)
    {sc : Scenario} (hsc : sc ∈ scenarios) : ((sc.playIn scratch c).runIn s).1 = .ok () := by
  obtain ⟨u, hmade⟩ := hh.made
  obtain ⟨d, n, hv, rfl⟩ := Tree.makeDirectory_eq_ok hcwd hmade
  obtain ⟨s', hr, -⟩ := play_passes hc hu hv hh hsc
    ((s.withTree (s.tree.put (d ++ [n]) .dir)).tell [.changed (.makeDirectory scratch)])
    ⟨rfl, hv.furnished⟩
  unfold playIn
  rw [Act.runIn_bind, Act.runIn_change, Tree.perform, hmade]
  dsimp only
  rw [Act.runIn_bind, Act.runIn_attempt, hr]
  dsimp only
  rw [Act.runIn_bind, Act.runIn_change]
  rfl

/-- Scenarios that are played one after another are all listed as passed. -/
theorem foldlM_judge_passes {ε : Type} {scs : List Scenario} (hscs : scs ⊆ scenarios)
    (r : SelfTestReport) (hh : s.tree.Hosts s.cwd c scratch)
    (hcwd : s.tree.get? s.cwd = some .dir) :
    ((scs.foldlM (judge scratch c) r : Act ε SelfTestReport).runIn s).1 =
      .ok { r with passed := r.passed ++ scs.map Scenario.name } := by
  induction scs generalizing r s with
  | nil => simp
  | cons sc scs ih =>
    have hsc : sc ∈ scenarios := hscs List.mem_cons_self
    obtain ⟨told, hreturns⟩ := playIn_returns hc scratch hsc s hcwd
    have hpassed := playIn_passes hc hu hh hcwd hsc
    have hjudged : (sc.judge scratch c r : Act ε SelfTestReport).runIn s =
        (.ok { r with passed := r.passed ++ [sc.name] }, ((sc.playIn scratch c).runIn s).2) := by
      unfold judge
      rw [Act.runIn_bind, Act.runIn_attempt, hpassed]
      rfl
    rw [List.foldlM_cons, Act.runIn_bind, hjudged]
    dsimp only
    rw [ih (fun sc' hsc' => hscs (List.mem_cons_of_mem _ hsc'))]
    · simp
    · rwa [hreturns.tree, hreturns.becomes.cwd]
    · rwa [hreturns.tree, hreturns.becomes.cwd]

end

end Scenario

/-! ## The self-test -/

/-- **The self-test never blames a good configuration**, and it leaves no trace. Under a
configuration without issues a scenario in a directory of its own changes nothing outside it at any
moment, and nothing at all in the end; so does the self-test as a whole, which comes to a report in
any case. If the names that the configuration makes can be names of entries, and the directory can
be made and written, the scenario passes, and the report lists all scenarios as passed. -/
theorem selfTest_passes {c : Config} (hc : c.Valid) :
    (∀ sc ∈ scenarios, ∀ (scratch : Path) (s : Session), s.tree.get? s.cwd = some .dir →
      (∃ told, s.Returns scratch told ((sc.playIn scratch c).runIn s).2) ∧
      (c.Usable → s.tree.Hosts s.cwd c scratch → ((sc.playIn scratch c).runIn s).1 = .ok ())) ∧
    ∀ (ε : Type) (scratch : Path) (s : Session), s.tree.get? s.cwd = some .dir →
      ∃ report s' told, (selfTest scratch c : Act ε SelfTestReport).runIn s = (.ok report, s') ∧
        s.Returns scratch told s' ∧
        (c.Usable → s.tree.Hosts s.cwd c scratch →
          report = { passed := scenarios.map Scenario.name, failed := [] }) := by
  refine ⟨fun sc hsc scratch s hcwd => ⟨Scenario.playIn_returns hc scratch hsc s hcwd,
    fun hu hh => Scenario.playIn_passes hc hu hh hcwd hsc⟩, fun ε scratch s hcwd => ?_⟩
  obtain ⟨report, s', told, hr, hreturns⟩ := selfTest_returns (ε := ε) hc scratch s hcwd
  refine ⟨report, s', told, hr, hreturns, fun hu hh => ?_⟩
  have hall := Scenario.foldlM_judge_passes (ε := ε) hc hu (List.Subset.refl scenarios) {} hh hcwd
  obtain ⟨report', s₁, hfold, hlast⟩ := Act.bind_eq_ok (congrArg Prod.fst hr)
  rw [hfold] at hall
  obtain rfl := Except.ok.inj hall
  exact (Except.ok.inj hlast).symm

/-- All scenarios pass where the excluded directory has the name of the source and backups end as
sources do. -/
theorem selfTest_passes_of_namesakes :
    let c : Config := { coding := "latin-1", excludedDir := "test.py", backupSuffix := ".py" }
    let scratch := Path.ofString "/scratch"
    let s : Session := ⟨Tree.empty, [], []⟩
    (∀ sc ∈ scenarios, ((sc.playIn scratch c).runIn s).1 = .ok ()) ∧
    ∃ report s' told, (selfTest scratch c : Act Abort SelfTestReport).runIn s = (.ok report, s') ∧
      s.Returns scratch told s' ∧ report.failed = [] := by
  intro c scratch s
  have hu : c.Usable := ⟨by decide, by decide, by decide⟩
  have hh : s.tree.Hosts s.cwd c scratch := ⟨by decide, ⟨_, rfl⟩, by decide, by decide⟩
  obtain ⟨hscenarios, hall⟩ := selfTest_passes (c := c) (by decide)
  refine ⟨fun sc hsc => (hscenarios sc hsc scratch s rfl).2 hu hh, ?_⟩
  obtain ⟨report, s', told, hr, hreturns, hreport⟩ := hall Abort scratch s rfl
  exact ⟨report, s', told, hr, hreturns, by rw [hreport hu hh]⟩

end SourceCoding
