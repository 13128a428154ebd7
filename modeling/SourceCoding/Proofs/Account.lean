import SourceCoding.Proofs.Passes
import SourceCoding.Proofs.Sources
import SourceCoding.Proofs.Treatment

/-!
# The account of what is done

What is done to files is told by an event at the moment at which it is done. So the events of a
command are an account of it: the operations among them, carried out one after another from the
first tree, lead to the last one, and those before an event lead to the tree in which it was told.

## Main definitions

* `Tree.performAll`: one operation after another
* `Session.Becomes`: one session comes of another by what is told
* `Act.Tells`: an action tells what it does, and only events of one kind
* `Event.KeepsTo`: an event is about some sources and their backups only
* `Event.StepOf`: an event of the steps of a treatment
* `Pass.treated`: the sources that a pass has treated, be it broken off or not

## Main results

* `Patcher.tells_patch`, `Pass.tells_foldlM`: patching sources is about these sources
* `Pass.run_treated`: an invariant of the sources treated so far, however the pass ends
-/

namespace SourceCoding

/-! ## One session after another -/

/-- **One operation after another**, up to the first that is refused. -/
def Tree.performAll (t : Tree) (cwd : Location) (ops : List Operation) : Except SystemError Tree :=
  ops.foldlM (fun t op => t.perform cwd op) t

theorem Tree.performAll_cons_eq_ok {t t' : Tree} {cwd : Location} {op : Operation}
    {ops : List Operation} : t.performAll cwd (op :: ops) = .ok t' ↔
      ∃ t₁, t.perform cwd op = .ok t₁ ∧ t₁.performAll cwd ops = .ok t' := by
  rw [performAll, List.foldlM_cons]
  cases t.perform cwd op with
  | error e => exact ⟨nofun, nofun⟩
  | ok t₁ => exact ⟨fun h => ⟨t₁, rfl, h⟩, fun ⟨_, h, h'⟩ => Except.ok.inj h ▸ h'⟩

theorem Tree.performAll_append (t : Tree) (cwd : Location) (ops ops' : List Operation) :
    t.performAll cwd (ops ++ ops') =
      t.performAll cwd ops >>= fun t' => t'.performAll cwd ops' := by
  rw [performAll, List.foldlM_append]
  rfl

@[simp] theorem operations_append (es fs : List Event) :
    operations (es ++ fs) = operations es ++ operations fs := List.filterMap_append

@[simp] theorem recoveredPaths_append (es fs : List Event) :
    recoveredPaths (es ++ fs) = recoveredPaths es ++ recoveredPaths fs := List.filterMap_append

@[simp] theorem storeCalls_append (es fs : List Event) :
    storeCalls (es ++ fs) = storeCalls es ++ storeCalls fs := List.filterMap_append

/-- **One session comes of another** by the events that are told in between. -/
structure Session.Becomes (s : Session) (told : List Event) (s' : Session) : Prop where
  /-- The working directory stays. -/
  cwd : s'.cwd = s.cwd
  /-- The events are told. -/
  events : s'.events = s.events ++ told
  /-- What they say was done has been done. -/
  tree : s.tree.performAll s.cwd (operations told) = .ok s'.tree

namespace Session.Becomes

variable {s s' s'' : Session} {told told' : List Event}

theorem refl (s : Session) : s.Becomes [] s := ⟨rfl, by simp, rfl⟩

theorem trans (h : s.Becomes told s') (h' : s'.Becomes told' s'') :
    s.Becomes (told ++ told') s'' := by
  refine ⟨h'.cwd.trans h.cwd, by rw [h'.events, h.events, List.append_assoc], ?_⟩
  rw [operations_append, Tree.performAll_append, h.tree, ← h.cwd]
  exact h'.tree

/-- An operation that is carried out is told. -/
theorem change {t : Tree} {op : Operation} (h : s.tree.perform s.cwd op = .ok t) :
    s.Becomes [.changed op] ((s.withTree t).tell [.changed op]) := by
  refine ⟨rfl, rfl, ?_⟩
  show [op].foldlM (fun t op => t.perform s.cwd op) s.tree = .ok t
  simp [h]

end Session.Becomes

/-- Events that are neither operations nor calls on the store of backups. -/
def Quiet (es : List Event) : Prop := ∀ e ∈ es, e.operation? = none ∧ e.storeCall? = none

theorem Quiet.operations {es : List Event} (h : Quiet es) : operations es = [] :=
  List.filterMap_eq_nil_iff.2 fun e he => (h e he).1

theorem Quiet.storeCalls {es : List Event} (h : Quiet es) : storeCalls es = [] :=
  List.filterMap_eq_nil_iff.2 fun e he => (h e he).2

theorem Quiet.singleton {e : Event} (ho : e.operation? = none) (hc : e.storeCall? = none) :
    Quiet [e] :=
  List.forall_mem_singleton.2 ⟨ho, hc⟩

theorem Session.becomes_tell {es : List Event} (s : Session) (h : operations es = []) :
    s.Becomes es (s.tell es) :=
  ⟨rfl, rfl, by rw [h]; rfl⟩

theorem Session.becomes_withTree {t : Tree} (s : Session) (es : List Event)
    (h : s.tree.performAll s.cwd (operations es) = .ok t) :
    s.Becomes es ((s.withTree t).tell es) :=
  ⟨rfl, rfl, h⟩

/-! ## Actions that tell what they do -/

/-- **An action tells what it does**, and only events of one kind. -/
def Act.Tells {ε α : Type} (Q : Event → Prop) (a : Act ε α) : Prop :=
  ∀ s : Session, ∃ told, s.Becomes told (a.runIn s).2 ∧ ∀ e ∈ told, Q e

namespace Act

section

variable {ε δ α β : Type} {Q : Event → Prop} {a : Act ε α} {f : α → Act ε β}

theorem tells_of_runIn (h : ∀ s, (a.runIn s).2 = s) : a.Tells Q := by
  intro s
  rw [h]
  exact ⟨[], .refl s, by simp⟩

theorem tells_pure (x : α) : (pure x : Act ε α).Tells Q := tells_of_runIn fun _ => rfl

theorem tells_throw (e : ε) : (throw e : Act ε α).Tells Q := tells_of_runIn fun _ => rfl

theorem tells_emitAll {es : List Event} (ho : operations es = []) (h : ∀ e ∈ es, Q e) :
    (emitAll es : Act ε Unit).Tells Q :=
  fun s => ⟨es, s.becomes_tell ho, h⟩

theorem tells_emit {e : Event} (ho : e.operation? = none) (h : Q e) :
    (emit e : Act ε Unit).Tells Q :=
  tells_emitAll (by simp [operations, ho]) (by simpa using h)

theorem tells_query (ask : Tree → Location → Except SystemError α) (failure : SystemError → ε) :
    (query ask failure).Tells Q :=
  tells_of_runIn fun s => by rw [runIn_query]

theorem tells_change {op : Operation} (failure : SystemError → ε) (h : Q (.changed op)) :
    (change op failure).Tells Q := by
  intro s
  rw [runIn_change]
  cases ht : s.tree.perform s.cwd op with
  | error e => exact ⟨[], .refl s, by simp⟩
  | ok t => exact ⟨_, .change ht, by simpa using h⟩

theorem Tells.bind (ha : a.Tells Q) (hf : ∀ x, (f x).Tells Q) : (a >>= f).Tells Q := by
  intro s
  obtain ⟨told, hs, hQ⟩ := ha s
  rw [runIn_bind]
  rcases hr : a.runIn s with ⟨e | x, s'⟩ <;> rw [hr] at hs
  · exact ⟨told, hs, hQ⟩
  · obtain ⟨told', hs', hQ'⟩ := hf x s'
    refine ⟨told ++ told', hs.trans hs', fun e he => ?_⟩
    exact (List.mem_append.1 he).elim (hQ e) (hQ' e)

theorem Tells.mono {Q' : Event → Prop} (h : a.Tells Q) (hQ : ∀ e, Q e → Q' e) : a.Tells Q' := by
  intro s
  obtain ⟨told, hs, htold⟩ := h s
  exact ⟨told, hs, fun e he => hQ e (htold e he)⟩

theorem Tells.attempt (ha : a.Tells Q) : (attempt a : Act δ (Except ε α)).Tells Q := ha

/-- An action that is refused under some condition tells what it does. -/
theorem Tells.guard {c : Prop} [Decidable c] {e : ε} {g : β → Act ε α} (ha : a.Tells Q) :
    (if c then (throw e : Act ε β) >>= g else a).Tells Q := by
  split
  · exact tells_of_runIn fun _ => by simp
  · exact ha

theorem tells_foldlM {g : β → α → Act ε β} {xs : List α}
    (h : ∀ x ∈ xs, ∀ b, (g b x).Tells Q) (b : β) : (xs.foldlM g b).Tells Q := by
  induction xs generalizing b with
  | nil => exact tells_pure b
  | cons x xs ih =>
    rw [List.foldlM_cons]
    exact (h x List.mem_cons_self b).bind (ih fun y hy => h y (List.mem_cons_of_mem _ hy))

end

end Act

/-! ## What patching tells -/

/-- The path that an operation is about. -/
def Operation.path : Operation → Path
  | .write path _ => path
  | .remove path => path
  | .makeDirectory path => path
  | .removeAll path => path

/-- **An event is about some sources and their backups only**, as far as it is a call on the store
of backups or an operation. -/
def Event.KeepsTo (b : BackupStore) (files : List Path) : Event → Prop
  | .storeCalled _ target => target ∈ files
  | .changed op => ∃ f ∈ files, op.path = f ∨ op.path = b.backupPath f
  | _ => True

theorem Event.KeepsTo.mono {b : BackupStore} {files files' : List Path} {e : Event}
    (h : e.KeepsTo b files) (hsub : files ⊆ files') : e.KeepsTo b files' := by
  cases e with
  | storeCalled call target => exact hsub h
  | changed op =>
    obtain ⟨f, hf, hop⟩ := h
    exact ⟨f, hsub hf, hop⟩
  | _ => trivial

/-- **An event of the steps of a treatment**: a call on the store of backups for the source, an
operation on the source or its backup, or word that the source is in order. -/
def Event.StepOf (b : BackupStore) (f : Path) : Event → Prop
  | .storeCalled _ target => target = f
  | .changed op => op.path = f ∨ op.path = b.backupPath f
  | .foundCompliant path => path = f
  | .inserted path => path = f
  | _ => False

theorem Event.StepOf.keepsTo {b : BackupStore} {f : Path} {files : List Path} {e : Event}
    (h : e.StepOf b f) (hf : f ∈ files) : e.KeepsTo b files := by
  cases e with
  | storeCalled call target =>
    obtain rfl : target = f := h
    exact hf
  | changed op => exact ⟨f, hf, h⟩
  | _ => trivial

section

variable {b : BackupStore} {f : Path} {files : List Path}

theorem BackupStore.tells_discard (b : BackupStore) (f : Path) :
    (b.discard f).Tells (Event.StepOf b f) := by
  refine (Act.tells_emit (by rfl) (by rfl)).bind fun _ => .guard ?_
  refine (Act.tells_change _ (.inr rfl)).attempt.bind fun r => ?_
  split
  · exact Act.tells_pure _
  · exact Act.tells_pure _
  · exact Act.tells_throw _

theorem BackupStore.tells_obstruct (b : BackupStore) (f : Path) :
    (BackupStore.obstruct f).Tells (Event.StepOf b f) :=
  (Act.tells_change id (.inl rfl)).attempt.bind fun _ =>
    (Act.tells_change id (.inl rfl)).attempt.bind fun _ => Act.tells_pure _

theorem BackupStore.tells_store (b : BackupStore) (f : Path) (content : Bytes) :
    (b.store f content).Tells (Event.StepOf b f) := by
  refine (Act.tells_emit (by rfl) (by rfl)).bind fun _ => .guard ?_
  refine (Act.tells_change _ (.inr rfl)).bind fun _ => ?_
  split
  · exact tells_obstruct b f
  · exact Act.tells_pure _

theorem tells_writeSource (b : BackupStore) (f : Path) (content : Bytes) :
    (writeSource f content).Tells (Event.StepOf b f) :=
  Act.tells_change _ (.inl rfl)

namespace Patcher

variable {p : Patcher}

theorem tells_declare (p : Patcher) (f : Path) (content : Bytes) :
    (p.declare f content).Tells (Event.StepOf p.store f) :=
  (p.store.tells_store f content).bind fun _ => (tells_writeSource p.store f _).bind fun _ =>
    (p.store.tells_discard f).bind fun _ => Act.tells_emit (by rfl) (by rfl)

theorem tells_settle (p : Patcher) (f : Path) (content : Bytes) :
    (p.settle f content).Tells (Event.StepOf p.store f) := by
  unfold settle
  split
  · exact (Act.tells_emit (by rfl) (by rfl)).bind fun _ => Act.tells_pure _
  · split
    · exact Act.tells_pure _
    · exact (tells_declare p f content).bind fun _ => Act.tells_pure _

theorem tells_restore (hf : f ∈ files) (saved : Bytes) :
    (p.restore f saved).Tells (Event.KeepsTo p.store files) :=
  (Act.tells_emit rfl trivial).bind fun _ =>
    ((tells_writeSource p.store f saved).mono fun _ he => he.keepsTo hf).bind fun _ =>
    ((p.store.tells_discard f).mono fun _ he => he.keepsTo hf).bind fun _ =>
    Act.tells_emit rfl trivial

theorem tells_reconcile (hf : f ∈ files) (backup : Option Bytes) :
    (p.reconcile f backup).Tells (Event.KeepsTo p.store files) := by
  cases backup with
  | none => exact Act.tells_query _ _
  | some saved =>
    refine (Act.tells_emit rfl trivial).bind fun _ => ?_
    dsimp only
    split
    · exact (tells_restore hf saved).bind fun _ => Act.tells_pure _
    · exact (Act.tells_emit rfl trivial).bind fun _ => Act.tells_pure _

/-- **Patching a source looks for its backup first**, and all that it does after is about this
source. -/
theorem patch_opens (p : Patcher) (f : Path) (s : Session) :
    ∃ told, s.Becomes (.storeCalled .pending f :: told) ((p.patch f).runIn s).2 ∧
      ∀ e ∈ told, e.KeepsTo p.store [f] := by
  have hpending : s.Becomes [.storeCalled .pending f] ((p.store.pending f).runIn s).2 := by
    rw [runIn_pending]
    exact s.becomes_tell rfl
  rw [patch, Act.runIn_bind]
  rcases hr : (p.store.pending f).runIn s with ⟨e | backup, s₁⟩ <;> rw [hr] at hpending
  · exact ⟨[], hpending, by simp⟩
  · have hf : f ∈ [f] := List.mem_singleton_self f
    obtain ⟨told, hs, hkeeps⟩ := (tells_reconcile (p := p) hf backup).bind
      (fun content => ((p.tells_settle f content).mono fun _ he => he.keepsTo hf).bind
        fun action => Act.tells_pure (Outcome.mk f action backup.isSome)) s₁
    exact ⟨told, hpending.trans hs, hkeeps⟩

/-- **Patching a source is about this source**, and what it does is told. -/
theorem tells_patch (hf : f ∈ files) : (p.patch f).Tells (Event.KeepsTo p.store files) := by
  intro s
  obtain ⟨told, hs, hkeeps⟩ := p.patch_opens f s
  refine ⟨_, hs, fun e he => ?_⟩
  rcases List.mem_cons.1 he with rfl | he
  · exact hf
  · exact (hkeeps e he).mono (by simpa using hf)

end Patcher

end

/-! ## What a pass tells -/

namespace Pass

variable {p : Pass} {files : List Path} {s : Session} {root : Path}

theorem tells_step {f : Path} (hf : f ∈ files) (S : Summary) :
    (p.step S f).Tells (Event.KeepsTo p.patcher.store files) := by
  refine (Patcher.tells_patch hf).attempt.bind fun r => ?_
  split
  · exact (Act.tells_emit rfl trivial).bind fun _ => Act.tells_pure _
  · exact .guard ((Act.tells_emit rfl trivial).bind fun _ => Act.tells_pure _)

/-- **Treating sources is about these sources.** -/
theorem tells_foldlM (S : Summary) :
    (files.foldlM p.step S).Tells (Event.KeepsTo p.patcher.store files) :=
  Act.tells_foldlM (fun _ hf S => tells_step hf S) S

theorem quiet_opening (p : Pass) (root : Path) (walk : Walk) : Quiet (p.opening root walk) := by
  intro e he
  simp only [opening, List.mem_append, List.mem_map, List.mem_singleton] at he
  rcases he with (⟨finding, -, rfl⟩ | rfl) | rfl
  · cases finding <;> exact ⟨rfl, rfl⟩
  · exact ⟨rfl, rfl⟩
  · exact ⟨rfl, rfl⟩

/-! ## The sources treated -/

/-- **The sources that a pass has treated**: all that it found, or those up to the one at which it
was broken off, or none where the walk failed. -/
def treated (p : Pass) (root : Path) (s : Session) : List Path :=
  let files := (s.tree.survey s.cwd p.config root).sources
  match ((p.run root).runIn s).1 with
  | .ok _ => files
  | .error (.processing f _) => files.takeWhile (· ≠ f) ++ [f]
  | .error _ => []

/-- **An invariant of the sources treated so far** holds of those that the loop has treated when it
ends or is broken off. -/
theorem foldlM_treated {I : List Path → Session → Prop} (summary : Summary)
    (hquiet : ∀ done s es, Quiet es → I done s → I done (s.tell es))
    (hstep : ∀ done f rest s, files = done ++ f :: rest → I done s →
      I (done ++ [f]) ((p.patcher.patch f).runIn s).2) (h0 : I [] s) :
    (∃ S s', (files.foldlM p.step summary).runIn s = (.ok S, s') ∧ I files s') ∨
      ∃ done f rest e s', files = done ++ f :: rest ∧
        (files.foldlM p.step summary).runIn s = (.error (.processing f e), s') ∧
        I (done ++ [f]) s' := by
  -- Induction from the end: what comes after the source at which the loop is broken off is not
  -- reached.
  induction files using List.reverseRecOn with
  | nil => exact .inl ⟨summary, s, rfl, h0⟩
  | append_singleton files f ih =>
    simp only [List.foldlM_append, Act.runIn_bind]
    rcases ih (fun done g rest s hfiles => hstep done g (rest ++ [f]) s (by simp [hfiles])) with
      ⟨S, s₁, hr, hI⟩ | ⟨done, g, rest, e, s₁, hfiles, hr, hI⟩
    · have hI' := hstep files f [] s₁ rfl hI
      simp only [hr, List.foldlM_cons, List.foldlM_nil, Act.runIn_bind, runIn_step]
      rcases hp : (p.patcher.patch f).runIn s₁ with ⟨e | o, s₂⟩ <;> rw [hp] at hI'
      · dsimp only
        split_ifs
        · exact .inr ⟨files, f, [], e, s₂, rfl, rfl, hI'⟩
        · exact .inl ⟨_, _, rfl, hquiet _ _ _ (.singleton rfl rfl) hI'⟩
      · exact .inl ⟨_, _, rfl, hquiet _ _ _ (.singleton rfl rfl) hI'⟩
    · rw [hr]
      exact .inr ⟨done, g, rest ++ [f], e, s₁, by simp [hfiles], rfl, hI⟩

/-- Before a source come those that are not yet the source, as none is found twice. -/
theorem takeWhile_sources {t : Tree} {cwd : Location} {c : Config} {done rest : List Path}
    {f : Path} (h : (t.survey cwd c root).sources = done ++ f :: rest) :
    (t.survey cwd c root).sources.takeWhile (· ≠ f) = done := by
  have hnodup := Tree.nodup_sources t cwd c root
  rw [h, List.nodup_append] at hnodup
  rw [h, List.takeWhile_append_of_pos, List.takeWhile_cons_of_neg (by simp), List.append_nil]
  intro g hg
  simpa using hnodup.2.2 g hg f (by simp)

/-- **An invariant of the sources treated so far** holds of those that a pass has treated, be it
broken off or not. -/
theorem run_treated {I : List Path → Session → Prop}
    (hquiet : ∀ done s es, Quiet es → I done s → I done (s.tell es))
    (hstep : ∀ done f rest s₁, (s.tree.survey s.cwd p.config root).sources = done ++ f :: rest →
      I done s₁ → I (done ++ [f]) ((p.patcher.patch f).runIn s₁).2) (h0 : I [] s) :
    I (p.treated root s) ((p.run root).runIn s).2 := by
  unfold treated
  rw [runIn_run]
  have htake : ∀ {done f rest}, (s.tree.survey s.cwd p.config root).sources = done ++ f :: rest →
      (s.tree.survey s.cwd p.config root).sources.takeWhile (· ≠ f) = done := takeWhile_sources
  have hopening := p.quiet_opening root (s.tree.survey s.cwd p.config root)
  generalize s.tree.survey s.cwd p.config root = walk at hstep htake hopening
  cases walk.obstacle with
  | some failure => exact hquiet _ _ _ (fun e he => hopening e (by simp [opening, he])) h0
  | none =>
    rcases foldlM_treated (p.blank root walk.sources) hquiet hstep
      (hquiet _ _ _ hopening h0) with ⟨S, s', hr, hI⟩ | ⟨done, f, rest, e, s', hfiles, hr, hI⟩
    · simp only [hr]
      exact hquiet _ _ _ (by simp [Quiet, Event.operation?, Event.storeCall?]) hI
    · simp only [hr, htake hfiles]
      exact hI

/-- What a pass has treated it has found, and it comes first. -/
theorem treated_prefix (p : Pass) (root : Path) (s : Session) :
    p.treated root s <+: (s.tree.survey s.cwd p.config root).sources := by
  refine run_treated (p := p) (s := s)
    (I := fun done _ => done <+: (s.tree.survey s.cwd p.config root).sources)
    (fun _ _ _ _ h => h) ?_ List.nil_prefix
  intro done f rest _ hfiles _
  exact ⟨rest, by simp [hfiles]⟩

end Pass

end SourceCoding
