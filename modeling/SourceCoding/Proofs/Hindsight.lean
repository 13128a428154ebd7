import SourceCoding.Proofs.Passes
import SourceCoding.Proofs.Treatment

/-!
# Earlier events do not matter

An action tells what happens, and no action looks back at what has been told. So a source is
patched and a pass made in the same way whatever came before: the answer is the same, the same is
done to the files, and the same is told after the earlier events.

## Main definitions

* `Session.after`: a session in which something had been told before
* `Act.Forgets`: an action does not look at the events so far

## Main results

* `Forgets.bind`, `forgets_query`, `forgets_change`: actions put together
* `Pass.forgets_run`: a pass does not look back
-/

namespace SourceCoding

/-- The session in which something had been told before. -/
def Session.after (s : Session) (es : List Event) : Session := { s with events := es ++ s.events }

theorem Session.after_tell (s : Session) (es fs : List Event) :
    (s.after es).tell fs = (s.tell fs).after es := by simp [Session.after, Session.tell]

/-- A session is one in which all that was told had been told before. -/
theorem Session.eq_after (s : Session) : s = (Session.mk s.tree s.cwd []).after s.events := by
  simp [Session.after]

namespace Act

variable {ε δ α β : Type} {a : Act ε α} {f : α → Act ε β}

/-- **An action does not look at the events so far.** -/
def Forgets (a : Act ε α) : Prop :=
  ∀ (s : Session) (es : List Event), a.runIn (s.after es) = ((a.runIn s).1, (a.runIn s).2.after es)

/-- What an action that forgets answers, and does to the tree, the tree and the working directory
decide. -/
theorem Forgets.congr (h : a.Forgets) {s s' : Session} (htree : s'.tree = s.tree)
    (hcwd : s'.cwd = s.cwd) :
    (a.runIn s').1 = (a.runIn s).1 ∧ (a.runIn s').2.tree = (a.runIn s).2.tree := by
  rw [s.eq_after, s'.eq_after, htree, hcwd, h, h]
  exact ⟨rfl, rfl⟩

theorem forgets_pure (x : α) : (pure x : Act ε α).Forgets := fun _ _ => rfl

theorem forgets_throw (e : ε) : (throw e : Act ε α).Forgets := fun _ _ => rfl

theorem forgets_emitAll (fs : List Event) : (emitAll fs : Act ε Unit).Forgets := fun s es => by
  rw [runIn_emitAll, runIn_emitAll, s.after_tell]

theorem forgets_emit (e : Event) : (emit e : Act ε Unit).Forgets := forgets_emitAll [e]

theorem forgets_query (ask : Tree → Location → Except SystemError α) (failure : SystemError → ε) :
    (query ask failure).Forgets := fun s es => by
  rw [runIn_query, runIn_query]
  rfl

theorem forgets_change (op : Operation) (failure : SystemError → ε) :
    (change op failure).Forgets := fun s es => by
  rw [runIn_change, runIn_change, show (s.after es).tree = s.tree from rfl,
    show (s.after es).cwd = s.cwd from rfl]
  cases s.tree.perform s.cwd op with
  | error e => rfl
  | ok t =>
    dsimp only
    rw [← Session.after_tell]
    rfl

theorem Forgets.bind (ha : a.Forgets) (hf : ∀ x, (f x).Forgets) : (a >>= f).Forgets := by
  intro s es
  rw [runIn_bind, runIn_bind, ha]
  rcases a.runIn s with ⟨e | x, s'⟩
  · rfl
  · exact hf x s' es

theorem Forgets.attempt (ha : a.Forgets) : (attempt a : Act δ (Except ε α)).Forgets := by
  intro s es
  rw [runIn_attempt, runIn_attempt, ha]

/-- An action that is refused under some condition. -/
theorem Forgets.guard {c : Prop} [Decidable c] {e : ε} {g : β → Act ε α} (ha : a.Forgets) :
    (if c then (throw e : Act ε β) >>= g else a).Forgets := by
  split
  · intro s es
    rw [runIn_bind, runIn_throw, runIn_bind, runIn_throw]
  · exact ha

theorem forgets_foldlM {g : β → α → Act ε β} (h : ∀ b x, (g b x).Forgets) (b : β) (xs : List α) :
    (xs.foldlM g b).Forgets := by
  induction xs generalizing b with
  | nil => exact forgets_pure b
  | cons x xs ih => exact (h b x).bind ih

end Act

/-! ## Treating a source -/

namespace BackupStore

variable (b : BackupStore) (f : Path)

theorem forgets_pending : (b.pending f).Forgets := by
  intro s es
  rw [runIn_pending, runIn_pending, s.after_tell]
  rfl

theorem forgets_store (content : Bytes) : (b.store f content).Forgets := by
  refine (Act.forgets_emit _).bind fun _ => .guard ((Act.forgets_change _ _).bind fun _ => ?_)
  split
  · exact (Act.forgets_change _ id).attempt.bind fun _ =>
      (Act.forgets_change _ id).attempt.bind fun _ => Act.forgets_pure _
  · exact Act.forgets_pure _

theorem forgets_discard : (b.discard f).Forgets := by
  refine (Act.forgets_emit _).bind fun _ => .guard ?_
  refine (Act.forgets_change _ id).attempt.bind fun r => ?_
  split
  · exact Act.forgets_pure _
  · exact Act.forgets_pure _
  · exact Act.forgets_throw _

end BackupStore

namespace Patcher

variable (p : Patcher) (f : Path)

theorem forgets_restore (saved : Bytes) : (p.restore f saved).Forgets :=
  (Act.forgets_emit _).bind fun _ => (Act.forgets_change _ _).bind fun _ =>
    (p.store.forgets_discard f).bind fun _ => Act.forgets_emit _

theorem forgets_declare (content : Bytes) : (p.declare f content).Forgets :=
  (p.store.forgets_store f content).bind fun _ => (Act.forgets_change _ _).bind fun _ =>
    (p.store.forgets_discard f).bind fun _ => Act.forgets_emit _

theorem forgets_reconcile (backup : Option Bytes) : (p.reconcile f backup).Forgets := by
  cases backup with
  | none =>
    show (readSource f).Forgets
    exact Act.forgets_query _ _
  | some saved =>
    refine (Act.forgets_emit _).bind fun _ => ?_
    dsimp only
    split
    · exact (p.forgets_restore f saved).bind fun _ => Act.forgets_pure _
    · exact (Act.forgets_emit _).bind fun _ => Act.forgets_pure _

theorem forgets_settle (content : Bytes) : (p.settle f content).Forgets := by
  unfold settle
  split
  · exact (Act.forgets_emit _).bind fun _ => Act.forgets_pure _
  · split
    · exact Act.forgets_pure _
    · exact (p.forgets_declare f content).bind fun _ => Act.forgets_pure _

theorem forgets_patch : (p.patch f).Forgets :=
  (p.store.forgets_pending f).bind fun backup => (p.forgets_reconcile f backup).bind
    fun content => (p.forgets_settle f content).bind fun _ => Act.forgets_pure _

end Patcher

/-! ## Passes -/

theorem forgets_collect (c : Config) (root : Path) : (collect c root).Forgets := by
  intro s es
  rw [runIn_collect, runIn_collect, show (s.after es).tree = s.tree from rfl,
    show (s.after es).cwd = s.cwd from rfl, s.after_tell, s.after_tell]
  cases (s.tree.survey s.cwd c root).obstacle <;> rfl

namespace Pass

theorem forgets_step (p : Pass) (S : Summary) (f : Path) : (p.step S f).Forgets := by
  refine (p.patcher.forgets_patch f).attempt.bind fun r => ?_
  split
  · exact (Act.forgets_emit _).bind fun _ => Act.forgets_pure _
  · exact .guard ((Act.forgets_emit _).bind fun _ => Act.forgets_pure _)

/-- **A pass does not look at the events so far.** -/
theorem forgets_run (p : Pass) (root : Path) : (p.run root).Forgets := by
  refine (forgets_collect p.config root).attempt.bind fun r => ?_
  have hloop : ∀ files : List Path, (do
      emit (.passStarted root files.length (p.mode = .check))
      let summary ← files.foldlM p.step (p.blank root files)
      emit (.passFinished summary)
      pure summary : Act Abort Summary).Forgets := fun files =>
    (Act.forgets_emit _).bind fun _ => (Act.forgets_foldlM p.forgets_step _ files).bind
      fun _ => (Act.forgets_emit _).bind fun _ => Act.forgets_pure _
  cases r with
  | ok files => exact (Act.forgets_pure files).bind hloop
  | error e => exact (Act.forgets_throw _).bind hloop

end Pass

end SourceCoding
