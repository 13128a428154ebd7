import SourceCoding.Proofs.Account

/-!
# Ending at the first failure

A pass may go on after a source that cannot be processed, or end there. The two ways differ in
nothing until the first failure: the pass that ends there has done, told and printed what the other
one had when it came to that point, and what the other one does after it is about later sources.

## Main definitions

* `Pass.withFailFast`: a pass with its way of dealing with failures chosen
* `Pass.CutOff`: a run cut off at a source that failed

## Main results

* `Pass.foldlM_goes_on`: a loop that goes on comes to its end and forgets no failure
* `Pass.foldlM_truncates`: a loop that ends at the first failure is the other one cut off
* `fail_fast_truncates`: the same for a whole pass
-/

namespace SourceCoding

theorem printedText_append (styled : Bool) (es fs : List Event) :
    printedText styled (es ++ fs) = printedText styled es ++ printedText styled fs := by
  rw [printedText, List.map_append, String.join_append]
  rfl

/-- A session in which more has been told has logged and printed more. -/
theorem Session.Becomes.outputs {s s' : Session} {told : List Event} (h : s.Becomes told s') :
    storeCalls s'.events = storeCalls s.events ++ storeCalls told ∧
      ∀ styled, printedText styled s'.events =
        printedText styled s.events ++ printedText styled told := by
  rw [h.events]
  exact ⟨storeCalls_append .., fun styled => printedText_append styled ..⟩

theorem Quiet.keepsTo {es : List Event} (h : Quiet es) (b : BackupStore) (files : List Path) :
    ∀ e ∈ es, e.KeepsTo b files := by
  intro e he
  obtain ⟨hop, hcall⟩ := h e he
  cases e with
  | changed op => simp [Event.operation?] at hop
  | storeCalled call target => simp [Event.storeCall?] at hcall
  | _ => trivial

namespace Pass

/-- **The pass that ends at the first failure**, or the one that goes on. -/
def withFailFast (p : Pass) (failFast : Bool) : Pass :=
  { p with config := { p.config with failFast } }

@[simp] theorem patcher_withFailFast (p : Pass) (failFast : Bool) :
    (p.withFailFast failFast).patcher = p.patcher := rfl

variable {p : Pass} {files : List Path} {S : Summary} {s : Session}

theorem step_fast_of_error {f : Path} {e : Failure} {s' : Session}
    (h : (p.patcher.patch f).runIn s = (.error e, s')) :
    ((p.withFailFast true).step S f).runIn s = (.error (.processing f e), s') := by
  rw [runIn_step, patcher_withFailFast, h]
  rfl

theorem step_slow_of_error {f : Path} {e : Failure} {s' : Session}
    (h : (p.patcher.patch f).runIn s = (.error e, s')) :
    ((p.withFailFast false).step S f).runIn s =
      (.ok (S.recordFailure f e.message), s'.tell [.skipped f e.message]) := by
  rw [runIn_step, patcher_withFailFast, h]
  rfl

/-- **A loop that goes on comes to its end** and forgets no failure. -/
theorem foldlM_goes_on (hslow : p.config.failFast = false) (files : List Path) (S : Summary)
    (s : Session) :
    ∃ S' s' more, (files.foldlM p.step S).runIn s = (.ok S', s') ∧
      S'.failures = S.failures ++ more := by
  suffices hrun : ∃ S' s', (files.foldlM p.step S).runIn s = (.ok S', s') ∧
      ∃ more, S'.failures = S.failures ++ more by
    obtain ⟨S', s', hr, more, hmore⟩ := hrun
    exact ⟨S', s', more, hr, hmore⟩
  refine foldlM_total (I := fun _ S' _ => ∃ more, S'.failures = S.failures ++ more) ?_
    ⟨[], by simp⟩
  rintro done f rest S₁ s₁ - ⟨more, hmore⟩
  obtain ⟨told, hstep⟩ := step_of_not_failFast hslow S₁ s₁ f
  refine ⟨_, _, hstep, ?_⟩
  cases ((p.patcher.patch f).runIn s₁).1 with
  | ok o => exact ⟨more, by rw [Summary.tally, Summary.failures_record, hmore]⟩
  | error e =>
    exact ⟨more ++ [⟨f, e.message⟩], by simp [Summary.tally, Summary.recordFailure, hmore]⟩

/-- **A run cut off at a source that failed**: what led from the first session to the second was
about the sources before, and then about this one, and what led on to the third was about those
after it. -/
structure CutOff (b : BackupStore) (before : List Path) (P : Path) (E : String)
    (after : List Path) (s s₁ s' : Session) : Prop where
  /-- The sources before are treated, and then the one that fails. -/
  upTo : ∃ earlier own, s.Becomes (earlier ++ .storeCalled .pending P :: own) s₁ ∧
    (∀ e ∈ earlier, e.KeepsTo b before) ∧ ∀ e ∈ own, e.KeepsTo b [P]
  /-- It is passed over, and the sources after it are treated. -/
  beyond : ∃ later, s₁.Becomes (.skipped P E :: later) s' ∧ ∀ e ∈ later, e.KeepsTo b after

namespace CutOff

variable {b : BackupStore} {before after : List Path} {f P : Path} {E : String}
  {s₀ s₁ s' s'' : Session} {told : List Event}

/-- More may have been done before, if it was about one source more. -/
theorem after_told (h : CutOff b before P E after s s₁ s') (hs : s₀.Becomes told s)
    {sources : List Path} (hsub : before ⊆ sources) (htold : ∀ e ∈ told, e.KeepsTo b sources) :
    CutOff b sources P E after s₀ s₁ s' := by
  obtain ⟨⟨earlier, own, hbecomes, hearlier, hown⟩, hbeyond⟩ := h
  refine ⟨⟨told ++ earlier, own, ?_, fun e he => ?_, hown⟩, hbeyond⟩
  · rw [List.append_assoc]
    exact hs.trans hbecomes
  · exact (List.mem_append.1 he).elim (htold e) fun he => (hearlier e he).mono hsub

/-- More may be told in the end. -/
theorem before_told (h : CutOff b before P E after s s₁ s') (hs : s'.Becomes told s'')
    (htold : ∀ e ∈ told, e.KeepsTo b after) : CutOff b before P E after s s₁ s'' := by
  obtain ⟨hupTo, later, hlater, hkeeps⟩ := h
  refine ⟨hupTo, later ++ told, hlater.trans hs, fun e he => ?_⟩
  exact (List.mem_append.1 he).elim (hkeeps e) (htold e)

end CutOff

/-- A loop that goes on after a failure is cut off there. -/
theorem cutOff_of_error (rest : List Path) {f : Path} {failure : Failure} {s₁ : Session}
    (hS : S.failures = []) (h : (p.patcher.patch f).runIn s = (.error failure, s₁)) :
    ∃ S' s' more, (rest.foldlM (p.withFailFast false).step
          (S.recordFailure f failure.message)).runIn (s₁.tell [.skipped f failure.message]) =
        (.ok S', s') ∧
      S'.failures = ⟨f, failure.message⟩ :: more ∧
      CutOff p.patcher.store [] f failure.message rest s s₁ s' := by
  obtain ⟨own, hown, hkeeps⟩ := p.patcher.patch_opens f s
  rw [h] at hown
  obtain ⟨S', s', more, hr, hmore⟩ := foldlM_goes_on (p := p.withFailFast false) rfl rest
    (S.recordFailure f failure.message) (s₁.tell [.skipped f failure.message])
  have htells : (rest.foldlM (p.withFailFast false).step
      (S.recordFailure f failure.message)).Tells (Event.KeepsTo p.patcher.store rest) :=
    tells_foldlM _
  obtain ⟨later, hlater, hrest⟩ := htells (s₁.tell [.skipped f failure.message])
  rw [hr] at hlater
  refine ⟨S', s', more, hr, ?_, ⟨[], own, hown, by simp, hkeeps⟩,
    later, (s₁.becomes_tell rfl).trans hlater, hrest⟩
  rw [hmore, Summary.recordFailure, hS]
  rfl

/-- **A loop that ends at the first failure** does what the other one does, which it cuts off where
there is a failure. -/
theorem foldlM_truncates (p : Pass) (files : List Path) (S : Summary) (s : Session)
    (hS : S.failures = []) :
    ∃ S' s', (files.foldlM (p.withFailFast false).step S).runIn s = (.ok S', s') ∧
      (S'.failures = [] ∧ (files.foldlM (p.withFailFast true).step S).runIn s = (.ok S', s') ∨
        ∃ before P after failure more s₁, S'.failures = ⟨P, failure.message⟩ :: more ∧
          files = before ++ P :: after ∧
          (files.foldlM (p.withFailFast true).step S).runIn s =
            (.error (.processing P failure), s₁) ∧
          (∃ S₀ s₀, (before.foldlM (p.withFailFast false).step S).runIn s = (.ok S₀, s₀) ∧
            (p.patcher.patch P).runIn s₀ = (.error failure, s₁)) ∧
          CutOff p.patcher.store before P failure.message after s s₁ s') := by
  induction files generalizing S s with
  | nil => exact ⟨S, s, rfl, .inl ⟨hS, rfl⟩⟩
  | cons f rest ih =>
    simp only [List.foldlM_cons, Act.runIn_bind]
    rcases hpatch : (p.patcher.patch f).runIn s with ⟨failure | o, s₁⟩
    · -- It fails, and one loop is at its end; what the other one does now is about the rest.
      rw [step_slow_of_error hpatch, step_fast_of_error hpatch]
      obtain ⟨S', s', more, hr, hmore, hcut⟩ := cutOff_of_error rest hS hpatch
      exact ⟨S', s', hr, .inr ⟨[], f, rest, failure, more, s₁, hmore, rfl, rfl,
        ⟨S, s, rfl, hpatch⟩, hcut⟩⟩
    · -- It succeeds, and both loops go on with the same summary.
      simp only [step_of_ok (p := p.withFailFast false) hpatch,
        step_of_ok (p := p.withFailFast true) hpatch]
      obtain ⟨S', s', hr, hcases⟩ := ih (S.record o) (s₁.tell [.processed f o.action])
        (by rw [Summary.failures_record, hS])
      refine ⟨S', s', hr, hcases.imp_right ?_⟩
      rintro ⟨before, P, after, failure, more, s₂, hfailures, rfl, hfast, ⟨S₀, s₀, hbefore, hP⟩,
        hcut⟩
      refine ⟨f :: before, P, after, failure, more, s₂, hfailures, rfl, hfast,
        ⟨S₀, s₀, ?_, hP⟩, ?_⟩
      · rw [List.foldlM_cons, Act.runIn_bind, step_of_ok (p := p.withFailFast false) hpatch]
        exact hbefore
      · obtain ⟨own, hown, hkeeps⟩ := Patcher.tells_patch (p := p.patcher)
          (List.mem_cons_self : f ∈ f :: before) s
        rw [hpatch] at hown
        refine hcut.after_told (hown.trans (s₁.becomes_tell rfl)) (List.subset_cons_self ..) ?_
        intro e he
        rcases List.mem_append.1 he with he | he
        · exact hkeeps e he
        · obtain rfl := List.mem_singleton.1 he
          trivial

/-- Either way the walk and the loop begin alike. -/
theorem runIn_run_withFailFast (p : Pass) (failFast : Bool) (root : Path) (s : Session) :
    ((p.withFailFast failFast).run root).runIn s =
      match (s.tree.survey s.cwd p.config root).obstacle with
      | some failure => (.error (.collecting root failure),
          s.tell ((s.tree.survey s.cwd p.config root).findings.map Finding.event))
      | none =>
        match ((s.tree.survey s.cwd p.config root).sources.foldlM (p.withFailFast failFast).step
            (p.blank root (s.tree.survey s.cwd p.config root).sources)).runIn
            (s.tell (p.opening root (s.tree.survey s.cwd p.config root))) with
        | (.ok S, s') => (.ok S, s'.tell [.passFinished S])
        | (.error e, s') => (.error e, s') :=
  runIn_run ..

end Pass

/-- **Ending at the first failure only cuts a pass off.** Where the pass that goes on comes to no
summary, the other one ends with the same failure; where its summary has no failures, the other one
ends with the same summary in the same session. Otherwise the other one ends with the first failure
of that summary, with what had been done, logged and printed when the source of this failure had
been treated; what is done after that is about later sources only. -/
theorem fail_fast_truncates (p : Pass) (root : Path) (s : Session) :
    match ((p.withFailFast false).run root).runIn s with
    | (.error a, s') => ((p.withFailFast true).run root).runIn s = (.error a, s')
    | (.ok S, s') =>
      match S.failures with
      | [] => ((p.withFailFast true).run root).runIn s = (.ok S, s')
      | ⟨P, E⟩ :: _ => ∃ before after failure s₁,
          (s.tree.survey s.cwd p.config root).sources = before ++ P :: after ∧
          ((p.withFailFast true).run root).runIn s = (.error (.processing P failure), s₁) ∧
          (Abort.processing P failure).chain =
            ("Failed to process " ++ P.display) :: E :: failure.causes ∧
          (∃ S₀ s₀, (before.foldlM (p.withFailFast false).step
              (p.blank root (s.tree.survey s.cwd p.config root).sources)).runIn
              (s.tell (p.opening root (s.tree.survey s.cwd p.config root))) = (.ok S₀, s₀) ∧
            (p.patcher.patch P).runIn s₀ = (.error failure, s₁)) ∧
          Pass.CutOff p.patcher.store before P E after s s₁ s' ∧
          storeCalls s₁.events <+: storeCalls s'.events ∧
          ∀ styled, ∃ text,
            printedText styled s'.events = printedText styled s₁.events ++ text := by
  rw [Pass.runIn_run_withFailFast, Pass.runIn_run_withFailFast]
  have hopening := p.quiet_opening root (s.tree.survey s.cwd p.config root)
  generalize s.tree.survey s.cwd p.config root = walk at hopening
  cases walk.obstacle with
  | some failure => rfl
  | none =>
    obtain ⟨S, s₂, hslow, ⟨hnone, hfast⟩ | ⟨before, P, after, failure, more, s₁, hfailures, hfiles,
      hfast, hbefore, hcut⟩⟩ := Pass.foldlM_truncates p walk.sources (p.blank root walk.sources)
        (s.tell (p.opening root walk)) rfl
    · simp only [hslow, hfast, hnone]
    · simp only [hslow, hfast, hfailures]
      have hfinished : s₂.Becomes [.passFinished S] (s₂.tell [.passFinished S]) :=
        s₂.becomes_tell rfl
      have hfinal := (hcut.after_told (s.becomes_tell hopening.operations) (List.Subset.refl _)
        (hopening.keepsTo _ _)).before_told hfinished (by simp [Event.KeepsTo])
      obtain ⟨later, hlater, -⟩ := hfinal.beyond
      obtain ⟨hcalls, hprinted⟩ := hlater.outputs
      exact ⟨before, after, failure, s₁, hfiles, rfl, rfl, hbefore, hfinal, ⟨_, hcalls.symm⟩,
        fun styled => ⟨_, hprinted styled⟩⟩

/-- Of three sources the second cannot be saved. The pass that ends there has treated the first, and
has left the third as it was. -/
theorem fail_fast_truncates_of_store_fault :
    let t := ((Tree.empty.put [Bytes.ofString "a.py"] (.file (Bytes.ofString "x = 1"))).put
      [Bytes.ofString "b.py"] (.file (Bytes.ofString "y = 2"))).put
      [Bytes.ofString "c.py"] (.file (Bytes.ofString "z = 3"))
    let p : Pass := ⟨{}, .apply, [⟨.store, Path.ofString "/b.py"⟩]⟩
    ∃ before after failure s₁,
      (t.survey [] p.config (Path.ofString "/")).sources =
        before ++ Path.ofString "/b.py" :: after ∧
      ((p.withFailFast true).run (Path.ofString "/")).runIn ⟨t, [], []⟩ =
        (.error (.processing (Path.ofString "/b.py") failure), s₁) ∧
      s₁.tree.read [] (Path.ofString "/a.py") =
        .ok (({} : Config).fixed (Bytes.ofString "x = 1")) ∧
      s₁.tree.read [] (Path.ofString "/c.py") = .ok (Bytes.ofString "z = 3") := by
  intro t p
  have hcut := fail_fast_truncates p (Path.ofString "/") ⟨t, [], []⟩
  have hslow : (((p.withFailFast false).run (Path.ofString "/")).runIn ⟨t, [], []⟩).1.toOption.map
      (fun S => S.failures.map SkippedSource.path) = some [Path.ofString "/b.py"] := by
    decide +kernel
  have hfast : let s₁ := (((p.withFailFast true).run (Path.ofString "/")).runIn ⟨t, [], []⟩).2
      s₁.tree.read [] (Path.ofString "/a.py") =
          .ok (({} : Config).fixed (Bytes.ofString "x = 1")) ∧
        s₁.tree.read [] (Path.ofString "/c.py") = .ok (Bytes.ofString "z = 3") := by
    decide +kernel
  obtain ⟨S, s', hr, hfailed⟩ := Act.exists_runIn_of_map hslow
  rw [hr] at hcut
  cases hfailures : S.failures with
  | nil => simp [hfailures] at hfailed
  | cons first more =>
    obtain ⟨P, E⟩ := first
    simp only [hfailures, List.map_cons, List.cons.injEq] at hcut hfailed
    obtain ⟨rfl, -⟩ := hfailed
    obtain ⟨before, after, failure, s₁, hfiles, hended, -⟩ := hcut
    rw [hended] at hfast
    exact ⟨before, after, failure, s₁, hfiles, hended, hfast⟩

end SourceCoding
