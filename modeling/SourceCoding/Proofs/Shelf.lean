import Mathlib.Data.Set.Insert
import SourceCoding.Proofs.Linkless

/-!
# The store of backups as a finite map

Seen through its calls, the store is a map from sources to contents: a call that makes a backup
enters a content, one that removes it strikes the entry out, and one that asks is answered with what
was entered last. All that is kept stands in the tree, each backup under a path that continues the
path of its source. So that the calls for one source do not show in the answers for another it is
enough that the sources are different places, even where one of them is the place of the backup of
another.

## Main definitions

* `StoreCall.left?`: what a call leaves for a backup
* `backupAfter`: the backup of a source after some calls
* `BackupStore.answer`: a call and its answer
* `Tree.Shelved`: sources whose backups have places of their own
* `BackupStore.Agrees`: a session that agrees with the map

## Main results

* `Agrees.update`: one entry written or struck out
* `Agrees.answer`: one call is answered by the map, and the session agrees again
* `store_refines_map`: any sequence of calls
-/

namespace SourceCoding

/-! ## The map -/

/-- What a call leaves for the backup of its source: a content, nothing, or what was there. -/
def StoreCall.left? : StoreCall → Option (Option Bytes)
  | .pending => none
  | .store content => some (some content)
  | .discard => some none

/-- **The backup of a source after some calls**: what the last one that left something left, or what
was there at first. -/
def backupAfter (initial : Option Bytes) (calls : List (StoreCall × Path)) (f : Path) :
    Option Bytes :=
  ((calls.filter fun x => x.2 = f).filterMap fun x => x.1.left?).getLast?.getD initial

@[simp] theorem backupAfter_nil (initial : Option Bytes) (f : Path) :
    backupAfter initial [] f = initial := rfl

theorem backupAfter_concat (initial : Option Bytes) (calls : List (StoreCall × Path))
    (call : StoreCall) (g f : Path) :
    backupAfter initial (calls ++ [(call, g)]) f =
      if g = f then call.left?.getD (backupAfter initial calls f)
      else backupAfter initial calls f := by
  unfold backupAfter
  rw [List.filter_append, List.filterMap_append]
  by_cases hg : g = f
  · cases call <;> simp [hg, StoreCall.left?]
  · simp [hg]

/-- What a call is answered. -/
inductive StoreAnswer where
  /-- A backup, or that there is none. -/
  | found (backup : Option Bytes)
  /-- It is done. -/
  | done
  deriving DecidableEq, Repr

/-- What the map answers after some calls. -/
def answerAfter (initial : Option Bytes) (calls : List (StoreCall × Path)) :
    StoreCall × Path → StoreAnswer
  | (.pending, f) => .found (backupAfter initial calls f)
  | (.store _, _) | (.discard, _) => .done

namespace BackupStore

/-- The backup of a source that stands in the tree of a session. -/
def backupIn (b : BackupStore) (s : Session) (f : Path) : Option Bytes :=
  (s.tree.read s.cwd (b.backupPath f)).toOption

/-- **A call and its answer.** -/
def answer (b : BackupStore) : StoreCall × Path → Act Failure StoreAnswer
  | (.pending, f) => .found <$> b.pending f
  | (.store content, f) => do
    b.store f content
    pure .done
  | (.discard, f) => do
    b.discard f
    pure .done

end BackupStore

/-! ## Places -/

namespace Tree

/-- **Sources whose backups have places of their own.** -/
structure Shelved (t : Tree) (cwd : Location) (b : BackupStore) (targets : Set Path) : Prop where
  /-- The path of each goes through a directory to a name, the system takes the path of its backup,
  and no directory stands in the place of the backup. -/
  place : ∀ f ∈ targets, ∃ d n, t.Enters cwd f d n ∧ b.Usable f n ∧
    t.get? (d ++ [n ++ b.suffix]) ≠ some .dir
  /-- No two are the same place. -/
  apart : ∀ f ∈ targets, ∀ g ∈ targets, ∀ d n, t.Enters cwd f d n → t.Enters cwd g d n → f = g

variable {t : Tree} {cwd l : Location} {b : BackupStore} {targets : Set Path} {f g : Path}

/-- The backup of a source has a place, and a file or nothing stands there. -/
theorem Shelved.names (h : t.Shelved cwd b targets) (hb : b.Proper) (ht : t.LinkFree)
    (hf : f ∈ targets) : ∃ l, t.Names cwd (b.backupPath f) l ∧ Plain (t.get? l) := by
  obtain ⟨d, n, he, hu, hdir⟩ := h.place f hf
  refine ⟨_, (he.names hb ht hu).2, ?_⟩
  cases hg : t.get? (d ++ [n ++ b.suffix]) with
  | none => exact plain_none
  | some e =>
    cases e with
    | file content => exact plain_file content
    | dir => exact absurd hg hdir
    | link q => exact absurd hg (ht _ q)

/-- The backups of two sources have two places. -/
theorem Shelved.eq_of_names (h : t.Shelved cwd b targets) (hb : b.Proper) (hf : f ∈ targets)
    (hg : g ∈ targets) (hfl : t.Names cwd (b.backupPath f) l)
    (hgl : t.Names cwd (b.backupPath g) l) : f = g := by
  obtain ⟨d, n, hfn, -⟩ := h.place f hf
  obtain ⟨d', n', hgn, -⟩ := h.place g hg
  obtain ⟨-, ⟨e, m, rfl, -, hfm⟩, -⟩ := hfl
  obtain ⟨-, ⟨e', m', hloc, -, hgm⟩, -⟩ := hgl
  obtain ⟨rfl, rfl⟩ := location_inj hloc
  obtain ⟨rfl, rfl⟩ := enters_unique (hfn.append hb.slash_not_mem) hfm
  obtain ⟨rfl, hn⟩ := enters_unique (hgn.append hb.slash_not_mem) hgm
  obtain rfl := List.append_cancel_right hn
  exact h.apart f hf g hg _ _ hfn hgn

end Tree

/-! ## Sessions that agree with the map -/

namespace BackupStore

/-- **A session that agrees with the map** after some calls: in the place of each backup stands what
the map has, and elsewhere nothing has changed. -/
structure Agrees (b : BackupStore) (s : Session) (targets : Set Path)
    (calls : List (StoreCall × Path)) (s₁ : Session) : Prop where
  /-- The directories are there. -/
  steady : Steady s.tree s.cwd s₁
  /-- What stands in the places of backups. -/
  backups : ∀ f ∈ targets, ∀ l, s.tree.Names s.cwd (b.backupPath f) l → s₁.tree.get? l =
    (backupAfter (b.backupIn s f) calls f).map .file
  /-- What has changed. -/
  changed : ∀ m, s₁.tree.get? m ≠ s.tree.get? m →
    ∃ x ∈ calls, x.1 ≠ .pending ∧ s.tree.Names s.cwd (b.backupPath x.2) m

namespace Agrees

variable {b : BackupStore} {s s₁ : Session} {targets : Set Path}
  {calls : List (StoreCall × Path)} {f : Path} {l : Location}

theorem nil (ht : s.tree.LinkFree) (hb : b.Proper) (hshelved : s.tree.Shelved s.cwd b targets) :
    b.Agrees s targets [] s := by
  refine ⟨.refl ht, fun f hf l hl => ?_, fun m hm => absurd rfl hm⟩
  obtain ⟨l', hl', hplain⟩ := hshelved.names hb ht hf
  obtain rfl := Except.ok.inj ((hl.locate .use).symm.trans (hl'.locate .use))
  rw [backupAfter_nil, backupIn, hl.read]
  rcases hplain with h | ⟨content, h⟩ <;> rw [h] <;> rfl

theorem names (h : b.Agrees s targets calls s₁) (hl : s.tree.Names s.cwd (b.backupPath f) l) :
    s₁.tree.Names s₁.cwd (b.backupPath f) l :=
  h.steady.cwd_eq ▸ hl.mono h.steady.dirs (h.steady.linkFree l)

/-- A call that only asks leaves the session in agreement. -/
theorem ask (h : b.Agrees s targets calls s₁) (f : Path) (told : List Event) :
    b.Agrees s targets (calls ++ [(.pending, f)]) (s₁.tell told) := by
  refine ⟨h.steady.tell told, fun g hg l hl => ?_, fun m hm => ?_⟩
  · rw [backupAfter_concat]
    simpa [StoreCall.left?] using h.backups g hg l hl
  · obtain ⟨x, hx, hcall⟩ := h.changed m hm
    exact ⟨x, List.mem_append_left _ hx, hcall⟩

/-- **One entry written or struck out**: the place of one backup changes and no other. -/
theorem update {t' : Tree} {call : StoreCall} {e : Option Bytes}
    (h : b.Agrees s targets calls s₁) (hb : b.Proper)
    (hshelved : s.tree.Shelved s.cwd b targets) (hf : f ∈ targets)
    (hl : s.tree.Names s.cwd (b.backupPath f) l) (hcall : call.left? = some e)
    (hu : s₁.tree.Updates t' l (e.map .file)) (told : List Event) :
    b.Agrees s targets (calls ++ [(call, f)]) ((s₁.withTree t').tell told) := by
  have hold := h.backups f hf l hl
  have hplain : Plain (s₁.tree.get? l) := by
    rw [hold]
    cases backupAfter (b.backupIn s f) calls f
    · exact plain_none
    · exact plain_file _
  refine ⟨⟨h.steady.cwd_eq, ?_, ?_⟩, ?_, ?_⟩
  · intro m q hm
    by_cases hml : m = l
    · rw [show ((s₁.withTree t').tell told).tree = t' from rfl, hml, hu.same] at hm
      cases e <;> simp at hm
    · exact h.steady.linkFree m q ((hu.other hml).symm.trans hm)
  · refine (hu.extends ?_ hplain.ne_link).trans h.steady.dirs
    rintro hdir
    rcases hplain with hp | ⟨content, hp⟩ <;> simp [hp] at hdir
  · intro g hg k hk
    show t'.get? k = _
    rw [backupAfter_concat]
    by_cases hgf : f = g
    · subst hgf
      obtain rfl := Except.ok.inj ((hl.locate .use).symm.trans (hk.locate .use))
      rw [if_pos rfl, hu.same, hcall, Option.getD_some]
    · rw [if_neg hgf, hu.other, h.backups g hg k hk]
      rintro rfl
      exact hgf (hshelved.eq_of_names hb hf hg hl hk)
  · intro m hm
    by_cases hml : m = l
    · refine ⟨(call, f), by simp, ?_, hml ▸ hl⟩
      rintro rfl
      cases hcall
    · have hm' : s₁.tree.get? m ≠ s.tree.get? m := by
        rw [← hu.other hml]
        exact hm
      obtain ⟨x, hx, hcall⟩ := h.changed m hm'
      exact ⟨x, List.mem_append_left _ hx, hcall⟩

/-- **One call is answered by the map**, and the session agrees again. -/
theorem answer {x : StoreCall × Path} (h : b.Agrees s targets calls s₁) (hb : b.Proper)
    (hnone : b.faults = []) (ht : s.tree.LinkFree) (hshelved : s.tree.Shelved s.cwd b targets)
    (hx : x.2 ∈ targets) :
    ∃ s₂, (b.answer x).runIn s₁ =
        (.ok (answerAfter (b.backupIn s x.2) calls x), s₂) ∧
      b.Agrees s targets (calls ++ [x]) s₂ := by
  obtain ⟨call, f⟩ := x
  obtain ⟨l, hl, -⟩ := hshelved.names hb ht hx
  have hnames := h.names hl
  have hold := h.backups f hx l hl
  have hstrikes : ∀ point, b.strikes point f = false := by simp [strikes, hnone]
  cases call with
  | pending =>
    refine ⟨_, ?_, h.ask f [.storeCalled .pending f]⟩
    rw [BackupStore.answer, Act.runIn_map, runIn_pending, hnames.read, hold, hstrikes]
    cases hbackup : backupAfter (b.backupIn s f) calls f <;>
      simp [Tree.contentOf, answerAfter, hbackup]
  | store content =>
    have hdir : s₁.tree.get? l ≠ some .dir := by
      rw [hold]
      cases backupAfter (b.backupIn s f) calls f <;> simp
    obtain ⟨t', hw, hu⟩ := hnames.write hdir content
    refine ⟨_, ?_, h.update hb hshelved hx hl rfl hu
      [.storeCalled (.store content) f, .changed (.write (b.backupPath f) content)]⟩
    simp [BackupStore.answer, BackupStore.store, hstrikes, Act.runIn_change, Tree.perform, hw,
      Session.withTree_tell, answerAfter]
  | discard =>
    cases hbackup : backupAfter (b.backupIn s f) calls f with
    | none =>
      have hfree : s₁.tree.get? l = none := by rw [hold, hbackup]; rfl
      have hu : s₁.tree.Updates s₁.tree l ((none : Option Bytes).map .file) := by
        intro m
        split
        · rename_i hm
          rw [hm, hfree]
          rfl
        · rfl
      refine ⟨_, ?_, h.update hb hshelved hx hl rfl hu [.storeCalled .discard f]⟩
      have hr : s₁.tree.remove s₁.cwd (b.backupPath f) = .error .notFound := by
        simp [Tree.remove, hnames.locate .remove, hfree, bind, Except.bind]
      simp [BackupStore.answer, BackupStore.discard, hstrikes, Act.runIn_change, Tree.perform, hr,
        answerAfter]
    | some content =>
      rw [hbackup] at hold
      obtain ⟨t', hr, hu⟩ := hnames.remove hold
      refine ⟨_, ?_, h.update hb hshelved hx hl rfl hu
        [.storeCalled .discard f, .changed (.remove (b.backupPath f))]⟩
      simp [BackupStore.answer, BackupStore.discard, hstrikes, Act.runIn_change, Tree.perform, hr,
        Session.withTree_tell, answerAfter]

/-- **Any sequence of calls** is answered by the map, each call by the map after those before it. -/
theorem answers (hb : b.Proper) (hnone : b.faults = []) (ht : s.tree.LinkFree)
    (hshelved : s.tree.Shelved s.cwd b targets) (hcalls : ∀ x ∈ calls, x.2 ∈ targets) :
    ∃ answers s', (calls.mapM b.answer).runIn s = (.ok answers, s') ∧
      answers.length = calls.length ∧
      (∀ (i : Nat) x, calls[i]? = some x → answers[i]? = some
        (answerAfter (b.backupIn s x.2) (calls.take i) x)) ∧
      b.Agrees s targets calls s' := by
  -- Induction from the end: the last call comes when the map has all those before it.
  induction calls using List.reverseRecOn with
  | nil => exact ⟨[], s, rfl, rfl, by simp, .nil ht hb hshelved⟩
  | append_singleton calls x ih =>
    obtain ⟨answers, s₁, hr, hlen, hanswers, hagrees⟩ :=
      ih fun y hy => hcalls y (List.mem_append_left _ hy)
    obtain ⟨s₂, hr', hagrees'⟩ := hagrees.answer hb hnone ht hshelved (hcalls x (by simp))
    refine ⟨answers ++ [answerAfter (b.backupIn s x.2) calls x], s₂, ?_, by simp [hlen], ?_,
      hagrees'⟩
    · rw [List.mapM_append, Act.runIn_bind, hr]
      simp [hr']
    · intro i y hy
      rcases Nat.lt_trichotomy i calls.length with hi | rfl | hi
      · rw [List.getElem?_append_left hi] at hy
        rw [List.getElem?_append_left (hlen ▸ hi), List.take_append_of_le_length (Nat.le_of_lt hi)]
        exact hanswers i y hy
      · obtain rfl : x = y := by simpa using hy
        simp [← hlen]
      · rw [List.getElem?_eq_none (by simp; omega)] at hy
        cases hy

end Agrees

end BackupStore

/-- **The store of backups refines a finite map.** In a tree without links some sources are given,
each by a path that goes through a directory to a name; they are different places, and the paths of
their backups are such as the system takes and lead to no directory. Then every call for one of them
succeeds, in whatever order the calls come, and one that asks is answered with the content that was
stored last, with nothing if it was discarded after that, and with what was there at first if it was
neither stored nor discarded. No place changes but those of the backups that were stored or
discarded. -/
theorem store_refines_map {c : Config} {s : Session} {targets : Set Path}
    {calls : List (StoreCall × Path)} (hc : c.Valid) (ht : s.tree.LinkFree)
    (hshelved : s.tree.Shelved s.cwd (.ofConfig c) targets) (hcalls : ∀ x ∈ calls, x.2 ∈ targets) :
    ∃ answers s', (calls.mapM (BackupStore.ofConfig c).answer).runIn s = (.ok answers, s') ∧
      answers.length = calls.length ∧
      (∀ (i : Nat) x, calls[i]? = some x → answers[i]? = some (answerAfter
        ((BackupStore.ofConfig c).backupIn s x.2)
        (calls.take i) x)) ∧
      ∀ m, s'.tree.get? m ≠ s.tree.get? m → ∃ x ∈ calls, x.1 ≠ .pending ∧
        s.tree.Names s.cwd ((BackupStore.ofConfig c).backupPath x.2) m := by
  obtain ⟨answers, s', hr, hlen, hanswers, hagrees⟩ :=
    BackupStore.Agrees.answers (hc.proper []) rfl ht hshelved hcalls
  exact ⟨answers, s', hr, hlen, hanswers, hagrees.changed⟩

/-- Two sources of which one is the place of the backup of the other, which has a backup at first.
To remove that backup makes the second source vanish, and leaves its backup alone. -/
theorem store_refines_map_of_overlap :
    let t := Tree.lone (Bytes.ofString "a.py.checker") (Bytes.ofString "old")
    let a := Path.ofString "/a.py"
    let b := Path.ofString "/a.py.checker"
    let new := Bytes.ofString "n"
    let calls := [(.pending, a), (.store new, b), (.discard, a), (.discard, a), (.pending, b),
      (.pending, a)]
    ∃ answers s', (calls.mapM (BackupStore.ofConfig {}).answer).runIn ⟨t, [], []⟩ =
        (.ok answers, s') ∧
      answers[0]? = some (.found (some (Bytes.ofString "old"))) ∧
      answers[4]? = some (.found (some new)) ∧ answers[5]? = some (.found none) ∧
      answers.length = 6 := by
  intro t a b new calls
  have ha : t.Enters [] a [] (Bytes.ofString "a.py") := ⟨rfl, [], by decide +kernel, .here⟩
  have hb : t.Enters [] b [] (Bytes.ofString "a.py.checker") :=
    ⟨rfl, [], by decide +kernel, .here⟩
  have hshelved : t.Shelved [] (.ofConfig {}) {a, b} := by
    refine ⟨?_, ?_⟩
    · rintro f (rfl | rfl)
      · exact ⟨_, _, ha, ⟨by decide +kernel, by decide +kernel⟩, by decide +kernel⟩
      · exact ⟨_, _, hb, ⟨by decide +kernel, by decide +kernel⟩, by decide +kernel⟩
    · have hne : Bytes.ofString "a.py" ≠ Bytes.ofString "a.py.checker" := by decide +kernel
      rintro f (rfl | rfl) g (rfl | rfl) d n hf hg
      · rfl
      · exact absurd ((Tree.enters_unique ha hf).2.trans (Tree.enters_unique hb hg).2.symm) hne
      · exact absurd ((Tree.enters_unique ha hg).2.trans (Tree.enters_unique hb hf).2.symm) hne
      · rfl
  have hcalls : ∀ x ∈ calls, x.2 ∈ ({a, b} : Set Path) := by
    simp only [Set.mem_insert_iff, Set.mem_singleton_iff]
    decide +kernel
  obtain ⟨answers, s', hr, hlen, hanswers, -⟩ := store_refines_map (s := ⟨t, [], []⟩)
    Config.valid_default (Tree.linkFree_lone _ _) hshelved hcalls
  exact ⟨answers, s', hr, (hanswers 0 _ rfl).trans (by decide +kernel),
    (hanswers 4 _ rfl).trans (by decide +kernel), (hanswers 5 _ rfl).trans (by decide +kernel),
    hlen⟩

end SourceCoding
