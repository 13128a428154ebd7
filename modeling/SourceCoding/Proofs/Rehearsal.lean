import SourceCoding.SelfTest
import SourceCoding.Proofs.Scratch

/-!
# The self-test leaves no trace

Each scenario works under names in its scratch directory: on a source, on the backup of the source,
and on the excluded directory with a source in it. So what it does keeps what has changed within the
directory, which is gone when the scenario ends. This holds for every configuration without issues
and every place of the scratch directory, even one where no directory can be made, and it does not
matter whether the scenario comes to its end.

## Main definitions

* `Event.StaysIn`: an operation keeps what has changed within a directory
* `Session.Returns`: the tree is what it was, and nothing has changed outside on the way

## Main results

* `Scenario.play_tells`: all that a scenario does stays in its directory
* `Scenario.playIn_returns`: a scenario leaves no trace
* `selfTest_returns`, `selfTest_keeps`: nor does the self-test
-/

namespace SourceCoding

variable {t : Tree} {cwd d l : Location} {n : Bytes} {scratch path : Path} {c : Config}
  {s s' : Session} {told : List Event}

/-! ## Operations that stay in a directory -/

/-- **An operation keeps what has changed within a directory.** -/
def Event.StaysIn (t : Tree) (cwd l : Location) : Event → Prop
  | .changed op => ∀ u u', t.Confined l u → u.perform cwd op = .ok u' → t.Confined l u'
  | _ => True

theorem Event.staysIn_of_quiet {e : Event} (h : e.operation? = none) : e.StaysIn t cwd l := by
  cases e with
  | changed op => cases h
  | _ => trivial

theorem Tree.Confined.performAll {u u' : Tree} {ops : List Operation} (h : t.Confined l u)
    (hops : ∀ op ∈ ops, (Event.changed op).StaysIn t cwd l)
    (hu : u.performAll cwd ops = .ok u') : t.Confined l u' := by
  induction ops generalizing u with
  | nil => exact Except.ok.inj hu ▸ h
  | cons op ops ih =>
    obtain ⟨u₁, hop, hrest⟩ := Tree.performAll_cons_eq_ok.1 hu
    exact ih (hops op List.mem_cons_self u u₁ h hop)
      (fun op' hop' => hops op' (List.mem_cons_of_mem _ hop')) hrest

theorem Session.Becomes.confined (h : s.Becomes told s')
    (htold : ∀ e ∈ told, e.StaysIn t s.cwd l) (hs : t.Confined l s.tree) :
    t.Confined l s'.tree := by
  refine hs.performAll (fun op hop => ?_) h.tree
  obtain ⟨e, he, hop⟩ := List.mem_filterMap.1 hop
  cases e <;> cases hop
  exact htold _ he

/-- Patching a source in the directory, with its backup beside it, keeps what has changed within
the directory. -/
theorem staysIn_of_keepsTo {b : BackupStore} {e : Event} (hv : t.Makeable cwd scratch d n)
    {front : Location} {last : Bytes}
    (hp : scratch.Within path ((front ++ [last]).map .name)) (hb : Bytes.slash ∉ b.suffix)
    (he : e.KeepsTo b [path]) : e.StaysIn t cwd (d ++ [n]) := by
  cases e with
  | changed op =>
    obtain ⟨f, hf, hop⟩ := he
    obtain rfl := List.mem_singleton.1 hf
    rw [List.map_append, List.map_singleton] at hp
    intro u u' hu hperform
    rcases hop with hop | hop
    · exact hu.perform hv (front ++ [last]) (by simpa [hop] using hp) (by simp) hperform
    · exact hu.perform hv (front ++ [last ++ b.suffix])
        (by simpa [hop, BackupStore.backupPath] using hp.append hb) (by simp) hperform
  | _ => trivial

/-! ## What is seen from outside -/

/-- **A tree differs in a scratch directory at most**: outside it holds the same as before. -/
def Tree.Spares (t : Tree) (cwd : Location) (scratch : Path) (u : Tree) : Prop :=
  ∀ m, (∀ d n, t.Makeable cwd scratch d n → ¬ d ++ [n] <+: m) → u.get? m = t.get? m

/-- **One session comes of another and leaves no trace.** The tree is what it was, and at no moment
on the way has anything changed outside the scratch directory. -/
structure Session.Returns (s : Session) (scratch : Path) (told : List Event) (s' : Session) :
    Prop where
  /-- The events tell what is done. -/
  becomes : s.Becomes told s'
  /-- At the end the tree is what it was. -/
  tree : s'.tree = s.tree
  /-- On the way nothing has changed outside. -/
  spares : ∀ ops, ops <+: operations told →
    ∃ u, s.tree.performAll s.cwd ops = .ok u ∧ s.tree.Spares s.cwd scratch u

theorem Tree.performAll_of_prefix {u : Tree} {ops ops' : List Operation}
    (h : t.performAll cwd ops' = .ok u) (hp : ops <+: ops') :
    ∃ u', t.performAll cwd ops = .ok u' := by
  obtain ⟨rest, rfl⟩ := hp
  rw [Tree.performAll_append] at h
  cases hu : t.performAll cwd ops with
  | ok u' => exact ⟨u', rfl⟩
  | error e =>
    rw [hu] at h
    cases h

namespace Session.Returns

/-- What is told without an operation leaves no trace. -/
theorem quiet (s : Session) {es : List Event} (ho : operations es = []) :
    s.Returns scratch es (s.tell es) := by
  refine ⟨s.becomes_tell ho, rfl, fun ops hops => ?_⟩
  obtain rfl : ops = [] := by simpa [ho] using hops
  exact ⟨s.tree, rfl, fun _ _ => rfl⟩

theorem refl (s : Session) : s.Returns scratch [] s := by
  have h : s.Returns scratch [] (s.tell []) := quiet s rfl
  rwa [Session.tell_nil] at h

theorem trans {s'' : Session} {told' : List Event} (h : s.Returns scratch told s')
    (h' : s'.Returns scratch told' s'') : s.Returns scratch (told ++ told') s'' := by
  refine ⟨h.becomes.trans h'.becomes, h'.tree.trans h.tree, fun ops hops => ?_⟩
  obtain ⟨rest, hrest⟩ := hops
  rw [operations_append] at hrest
  rcases List.append_eq_append_iff.1 hrest with ⟨more, hmore, -⟩ | ⟨more, rfl, hmore⟩
  · exact h.spares ops ⟨more, hmore.symm⟩
  · obtain ⟨u, hu, hspares⟩ := h'.spares more ⟨rest, hmore.symm⟩
    rw [h.tree, h.becomes.cwd] at hu hspares
    refine ⟨u, ?_, hspares⟩
    rw [Tree.performAll_append, h.becomes.tree, h.tree]
    exact hu

/-- What is done in a new directory leaves no trace when the directory is removed. -/
theorem closed {s₁ s₂ : Session} (hv : s.tree.Makeable s.cwd scratch d n)
    (hopened : s.Becomes [.changed (.makeDirectory scratch)] s₁)
    (hmade : s₁.tree = s.tree.put (d ++ [n]) .dir) (h : s₁.Becomes told s₂)
    (htold : ∀ e ∈ told, e.StaysIn s.tree s.cwd (d ++ [n]))
    (hclosed : s₂.Becomes [.changed (.removeAll scratch)] s') (htree : s'.tree = s.tree) :
    s.Returns scratch ([.changed (.makeDirectory scratch)] ++ told ++
      [.changed (.removeAll scratch)]) s' := by
  have hall := (hopened.trans h).trans hclosed
  refine ⟨hall, htree, fun ops hops => ?_⟩
  have hlist : operations ([.changed (.makeDirectory scratch)] ++ told ++
      [.changed (.removeAll scratch)]) =
      .makeDirectory scratch :: operations told ++ [.removeAll scratch] := by
    simp [operations, Event.operation?]
  rw [hlist] at hops
  rcases List.prefix_concat_iff.1 hops with rfl | hops
  · exact ⟨s.tree, by rw [← hlist, hall.tree, htree], fun _ _ => rfl⟩
  cases ops with
  | nil => exact ⟨s.tree, rfl, fun _ _ => rfl⟩
  | cons op ops =>
    obtain ⟨rfl, hrest⟩ := List.cons_prefix_cons.1 hops
    obtain ⟨u, hu⟩ := Tree.performAll_of_prefix h.tree hrest
    obtain ⟨t₁, hmake, hstart⟩ := Tree.performAll_cons_eq_ok.1 hopened.tree
    obtain rfl := Except.ok.inj hstart
    rw [hopened.cwd, hmade] at hu
    have hconfined : s.tree.Confined (d ++ [n]) u := by
      refine hv.confined.performAll (fun op hop => ?_) hu
      obtain ⟨e, he, heop⟩ := List.mem_filterMap.1 (hrest.mem hop)
      cases e <;> cases heop
      exact htold _ he
    refine ⟨u, Tree.performAll_cons_eq_ok.2 ⟨_, hmake, hmade ▸ hu⟩, fun m hm => ?_⟩
    exact hconfined.outside m (hm d n hv)

end Session.Returns

/-! ## Steps of a scenario -/

section

variable {α : Type} {Q : Event → Prop}

theorem tells_collect (c : Config) (root : Path) (hQ : ∀ e, e.operation? = none → Q e) :
    (collect c root).Tells Q := by
  have hquiet : ∀ es : List Event, (∀ e ∈ es, e.operation? = none) →
      operations es = [] ∧ ∀ e ∈ es, Q e :=
    fun _ h => ⟨List.filterMap_eq_nil_iff.2 h, fun e he => hQ e (h e he)⟩
  have hfindings : ∀ walk : Walk, ∀ e ∈ walk.findings.map Finding.event, e.operation? = none := by
    intro walk e he
    obtain ⟨finding, -, rfl⟩ := List.mem_map.1 he
    cases finding <;> rfl
  intro s
  rw [runIn_collect]
  cases (s.tree.survey s.cwd c root).obstacle with
  | some failure =>
    obtain ⟨ho, hall⟩ := hquiet _ (hfindings _)
    exact ⟨_, s.becomes_tell ho, hall⟩
  | none =>
    obtain ⟨ho, hall⟩ := hquiet ((s.tree.survey s.cwd c root).findings.map Finding.event ++
      [.collectionFinished root (s.tree.survey s.cwd c root).sources.length])
      (List.forall_mem_append.2 ⟨hfindings _, List.forall_mem_singleton.2 rfl⟩)
    exact ⟨_, s.becomes_tell ho, hall⟩

theorem tells_compliant (path : Path) : (compliant path).Tells Q :=
  Act.tells_of_runIn fun s => by
    rw [compliant, Act.runIn_map, runIn_readSource]
    cases s.tree.read s.cwd path <;> rfl

namespace Trial

theorem tells_expect (condition : Bool) (text : String) : (expect condition text).Tells Q := by
  unfold expect
  split
  · exact Act.tells_pure _
  · exact Act.tells_throw _

theorem tells_ofAct {a : Act Failure α} (h : a.Tells Q) : (ofAct a).Tells Q := by
  refine h.attempt.bind fun r => ?_
  split
  · exact Act.tells_pure _
  · exact Act.tells_throw _

theorem tells_expectContent (path : Path) (expected : String) :
    (Scenario.expectContent path expected).Tells Q := by
  refine Act.Tells.bind ((Act.tells_query _ _).bind fun content => ?_) fun _ => tells_expect _ _
  split
  · exact Act.tells_pure _
  · exact Act.tells_throw _

end Trial

end

/-! ## What a scenario does -/

namespace Scenario

open Trial

/-- The name of the source of a scenario. -/
def sourceName (c : Config) : Bytes := Bytes.ofString ("test." ++ c.extension)

theorem slash_not_mem_sourceName (hc : c.Valid) : Bytes.slash ∉ sourceName c := by
  rw [sourceName, Bytes.ofString_append, List.mem_append, not_or]
  exact ⟨by decide, slash_not_mem_of_nameIssues hc.issues_nil.2.1⟩

theorem ofSegment?_sourceName (c : Config) :
    Path.Step.ofSegment? (sourceName c) = some (.name (sourceName c)) := by
  refine Path.ofSegment?_eq_name.2 ⟨rfl, ?_⟩
  rw [sourceName, Bytes.ofString_append]
  have htest : Bytes.ofString "test." = [0x74, 0x65, 0x73, 0x74, 0x2E] := by decide
  simp [htest, dot, dotDot]

/-- The source stands in the scratch directory. -/
theorem within_sourcePath (hc : c.Valid) (scratch : Path) :
    scratch.Within (sourcePath scratch c) [.name (sourceName c)] :=
  Path.within_join scratch (ofSegment?_sourceName c) (slash_not_mem_sourceName hc)

/-- What a scenario does with one source and its backup, it does in the scratch directory. -/
structure Stage (t : Tree) (cwd : Location) (scratch : Path) (l : Location) (c : Config)
    (path : Path) : Prop where
  /-- The source may be written. -/
  write : ∀ content, (Trial.write path content).Tells (Event.StaysIn t cwd l)
  /-- So may its backup. -/
  save : ∀ content, (Trial.write ((patcher c).store.backupPath path) content).Tells
    (Event.StaysIn t cwd l)
  /-- The source may be patched. -/
  patch : ((patcher c).patch path).Tells (Event.StaysIn t cwd l)

theorem stage (hv : t.Makeable cwd scratch d n) (hc : c.Valid) (front : Location)
    (hp : scratch.Within path ((front ++ [sourceName c]).map .name)) :
    Stage t cwd scratch (d ++ [n]) c path := by
  have hkeeps : ∀ e : Event, e.KeepsTo (patcher c).store [path] → e.StaysIn t cwd (d ++ [n]) :=
    fun e he => staysIn_of_keepsTo hv hp hc.slash_not_mem_suffix he
  have hpath : path ∈ [path] := List.mem_singleton_self path
  exact ⟨fun content => Act.tells_change _ (hkeeps _ ⟨path, hpath, .inl rfl⟩),
    fun content => Act.tells_change _ (hkeeps _ ⟨path, hpath, .inr rfl⟩),
    (Patcher.tells_patch hpath).mono hkeeps⟩

section

variable {scratch : Path} (hst : Stage t cwd scratch l c (sourcePath scratch c))

include hst

theorem Stage.listsSources : (listsSources.play scratch c).Tells (Event.StaysIn t cwd l) :=
  (hst.write _).bind fun _ =>
    (tells_ofAct (tells_collect c scratch fun _ => Event.staysIn_of_quiet)).bind
      fun _ => tells_expect _ _

theorem Stage.recognition (name content : String) (verdict : Bool) (complaint : String) :
    ((recognition name content verdict complaint).play scratch c).Tells
      (Event.StaysIn t cwd l) :=
  (hst.write content).bind fun _ => (tells_ofAct (tells_compliant _)).bind
    fun _ => tells_expect _ _

theorem Stage.insertsDeclaration :
    (insertsDeclaration.play scratch c).Tells (Event.StaysIn t cwd l) :=
  (hst.write _).bind fun _ => (tells_ofAct hst.patch).bind fun _ => (tells_expect _ _).bind
    fun _ => (tells_expectContent _ _).bind fun _ => (tells_ofAct (tells_compliant _)).bind
      fun _ => tells_expect _ _

theorem Stage.keepsDirective : (keepsDirective.play scratch c).Tells (Event.StaysIn t cwd l) :=
  (hst.write _).bind fun _ => (tells_ofAct hst.patch).bind fun _ => tells_expectContent _ _

theorem Stage.isIdempotent : (isIdempotent.play scratch c).Tells (Event.StaysIn t cwd l) :=
  (hst.write _).bind fun _ => (tells_ofAct hst.patch).bind fun _ => (Act.tells_query _ _).bind
    fun _ => (tells_ofAct hst.patch).bind fun _ => (tells_expect _ _).bind
      fun _ => (Act.tells_query _ _).bind fun _ => tells_expect _ _

theorem Stage.recovers : (recovers.play scratch c).Tells (Event.StaysIn t cwd l) :=
  (hst.write _).bind fun _ => (hst.save _).bind fun _ => (tells_ofAct hst.patch).bind
    fun _ => (tells_expect _ _).bind fun _ => (tells_expectContent _ _).bind
      fun _ => (Act.tells_of_runIn fun _ => rfl).bind fun _ => tells_expect _ _

end

/-- A source in the excluded directory is written in the scratch directory, or the directory is not
made. -/
theorem skipsExcluded_tells (hv : t.Makeable cwd scratch d n) (hc : c.Valid) (hcwd : s.cwd = cwd)
    (hs : t.Confined (d ++ [n]) s.tree) :
    ∃ told, s.Becomes told ((skipsExcluded.play scratch c).runIn s).2 ∧
      ∀ e ∈ told, e.StaysIn t cwd (d ++ [n]) := by
  have hslash := slash_not_mem_of_nameIssues hc.issues_nil.2.2.1
  have hne := ne_nil_of_nameIssues hc.issues_nil.2.2.1
  obtain ⟨x, hx, hcases⟩ : ∃ x, Path.Step.ofSegment? (Bytes.ofString c.excludedDir) = some x ∧
      (x = .name (Bytes.ofString c.excludedDir) ∨ x = .stay ∨ x = .up) := by
    unfold Path.Step.ofSegment?
    split_ifs <;> simp_all
  have hexcluded : scratch.Within (scratch.join (.ofString c.excludedDir)) [x] :=
    Path.within_join scratch hx hslash
  rcases hcases with rfl | hdots
  · have hsource : scratch.Within (sourcePath (scratch.join (.ofString c.excludedDir)) c)
        ([Bytes.ofString c.excludedDir, sourceName c].map .name) :=
      hexcluded.join (by simp) (ofSegment?_sourceName c) (slash_not_mem_sourceName hc)
    have hst := stage hv hc [Bytes.ofString c.excludedDir] hsource
    have hmake : (Event.changed (.makeDirectory (scratch.join (.ofString c.excludedDir)))).StaysIn
        t cwd (d ++ [n]) := fun u u' hu =>
      hu.perform hv [Bytes.ofString c.excludedDir] hexcluded (by simp)
    have htells : (skipsExcluded.play scratch c).Tells (Event.StaysIn t cwd (d ++ [n])) :=
      (Act.tells_change _ hmake).bind fun _ => (hst.write _).bind fun _ =>
        (tells_ofAct (tells_collect c scratch fun _ => Event.staysIn_of_quiet)).bind
          fun _ => tells_expect _ _
    exact htells s
  · -- No directory can be made where one stands, and the scenario ends.
    obtain ⟨e, he⟩ := hs.makeDirectory_refused hv hexcluded hdots
    have hended : (skipsExcluded.play scratch c).runIn s = (.error [e.message], s) := by
      simp only [skipsExcluded, Trial.makeDirectory]
      rw [Act.runIn_bind, Act.runIn_change, Tree.perform, hcwd, he]
    rw [hended]
    exact ⟨[], .refl s, by simp⟩

/-- **A scenario tells what it does**, and all of it stays in its directory. -/
theorem play_tells (hv : t.Makeable cwd scratch d n) (hc : c.Valid) {sc : Scenario}
    (hsc : sc ∈ scenarios) (hcwd : s.cwd = cwd) (hs : t.Confined (d ++ [n]) s.tree) :
    ∃ told, s.Becomes told ((sc.play scratch c).runIn s).2 ∧
      ∀ e ∈ told, e.StaysIn t cwd (d ++ [n]) := by
  have hst := stage hv hc [] (within_sourcePath hc scratch)
  simp only [scenarios, List.mem_cons, List.not_mem_nil, or_false] at hsc
  rcases hsc with rfl | rfl | rfl | rfl | rfl | rfl | rfl | rfl | rfl | rfl
  · exact hst.listsSources s
  · exact skipsExcluded_tells hv hc hcwd hs
  · exact hst.recognition _ _ _ _ s
  · exact hst.recognition _ _ _ _ s
  · exact hst.recognition _ _ _ _ s
  · exact hst.recognition _ _ _ _ s
  · exact hst.insertsDeclaration s
  · exact hst.keepsDirective s
  · exact hst.isIdempotent s
  · exact hst.recovers s

/-- **A scenario leaves no trace**, whether it fails or not. -/
theorem playIn_returns (hc : c.Valid) (scratch : Path) {sc : Scenario} (hsc : sc ∈ scenarios)
    (s : Session) (hcwd : s.tree.get? s.cwd = some .dir) :
    ∃ told, s.Returns scratch told ((sc.playIn scratch c).runIn s).2 := by
  unfold playIn
  rw [Act.runIn_bind, Act.runIn_change, Tree.perform]
  cases hmade : s.tree.makeDirectory s.cwd scratch with
  | error e => exact ⟨[], .refl s⟩
  | ok u =>
    obtain ⟨d, n, hv, rfl⟩ := Tree.makeDirectory_eq_ok hcwd hmade
    have hopened : s.Becomes [.changed (.makeDirectory scratch)]
        ((s.withTree (s.tree.put (d ++ [n]) .dir)).tell [.changed (.makeDirectory scratch)]) :=
      .change hmade
    obtain ⟨told, hbecomes, htold⟩ := play_tells (c := c)
      (s := (s.withTree (s.tree.put (d ++ [n]) .dir)).tell [.changed (.makeDirectory scratch)])
      hv hc hsc rfl hv.confined
    simp only [Act.runIn_bind, Act.runIn_attempt, Act.runIn_change, Tree.perform]
    rcases hr : (sc.play scratch c).runIn
      ((s.withTree (s.tree.put (d ++ [n]) .dir)).tell [.changed (.makeDirectory scratch)]) with
      ⟨r, s₁⟩
    rw [hr] at hbecomes
    have hcwd₁ : s₁.cwd = s.cwd := hbecomes.cwd
    have hplayed : s.tree.Confined (d ++ [n]) s₁.tree := hbecomes.confined htold hv.confined
    have hremoved : s₁.tree.removeAll s₁.cwd scratch = s.tree := by
      rw [hcwd₁]
      exact hplayed.removeAll hv
    have hclosed : s₁.Becomes [.changed (.removeAll scratch)]
        ((s₁.withTree s.tree).tell [.changed (.removeAll scratch)]) :=
      .change (congrArg Except.ok hremoved)
    have hreturns := Session.Returns.closed hv hopened rfl hbecomes htold hclosed rfl
    dsimp only
    rw [hremoved]
    cases r <;> exact ⟨_, hreturns⟩

/-- One scenario more leaves no trace. -/
theorem judge_returns {ε : Type} (hc : c.Valid) (scratch : Path) {sc : Scenario}
    (hsc : sc ∈ scenarios) (r : SelfTestReport) (s : Session)
    (hcwd : s.tree.get? s.cwd = some .dir) :
    ∃ r' s' told, (sc.judge scratch c r : Act ε SelfTestReport).runIn s = (.ok r', s') ∧
      s.Returns scratch told s' := by
  obtain ⟨told, hreturns⟩ := playIn_returns hc scratch hsc s hcwd
  unfold judge
  rw [Act.runIn_bind, Act.runIn_attempt]
  rcases hr : (sc.playIn scratch c).runIn s with ⟨texts | u, s₁⟩ <;> rw [hr] at hreturns
  · exact ⟨_, _, _, rfl, hreturns.trans (.quiet s₁ rfl)⟩
  · exact ⟨_, _, _, rfl, hreturns⟩

/-- So do any scenarios one after another. -/
theorem foldlM_judge_returns {ε : Type} (hc : c.Valid) (scratch : Path) {scs : List Scenario}
    (hscs : scs ⊆ scenarios) (r : SelfTestReport) (s : Session)
    (hcwd : s.tree.get? s.cwd = some .dir) :
    ∃ r' s' told, (scs.foldlM (judge scratch c) r : Act ε SelfTestReport).runIn s = (.ok r', s') ∧
      s.Returns scratch told s' := by
  induction scs generalizing r s with
  | nil => exact ⟨r, s, [], rfl, .refl s⟩
  | cons sc scs ih =>
    obtain ⟨r₁, s₁, told₁, hr₁, h₁⟩ := judge_returns hc scratch (hscs List.mem_cons_self) r s hcwd
    obtain ⟨r₂, s₂, told₂, hr₂, h₂⟩ := ih (fun sc' hsc' => hscs (List.mem_cons_of_mem _ hsc')) r₁ s₁
      (by rw [h₁.tree, h₁.becomes.cwd, hcwd])
    refine ⟨r₂, s₂, told₁ ++ told₂, ?_, h₁.trans h₂⟩
    rw [List.foldlM_cons, Act.runIn_bind, hr₁]
    exact hr₂

end Scenario

/-! ## The self-test -/

/-- **The self-test leaves no trace**, and it cannot fail. -/
theorem selfTest_returns {ε : Type} (hc : c.Valid) (scratch : Path) (s : Session)
    (hcwd : s.tree.get? s.cwd = some .dir) :
    ∃ report s' told, (selfTest scratch c : Act ε SelfTestReport).runIn s = (.ok report, s') ∧
      s.Returns scratch told s' := by
  obtain ⟨report, s₁, told, hr, hreturns⟩ :=
    Scenario.foldlM_judge_returns hc scratch (List.Subset.refl scenarios) {} s hcwd
  refine ⟨report, s₁.tell [.selfTested report], _, ?_, hreturns.trans (.quiet s₁ rfl)⟩
  rw [selfTest, Act.runIn_bind, hr]
  rfl

/-- **The self-test leaves the tree as it was.** -/
theorem selfTest_keeps {ε : Type} (hc : c.Valid) (scratch : Path) (s : Session)
    (hcwd : s.tree.get? s.cwd = some .dir) :
    ∃ report s', (selfTest scratch c : Act ε SelfTestReport).runIn s = (.ok report, s') ∧
      s'.tree = s.tree ∧ s'.cwd = s.cwd := by
  obtain ⟨report, s', told, hr, hreturns⟩ := selfTest_returns hc scratch s hcwd
  exact ⟨report, s', hr, hreturns.tree, hreturns.becomes.cwd⟩

end SourceCoding
