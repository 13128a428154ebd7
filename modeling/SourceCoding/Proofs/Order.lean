import SourceCoding.Proofs.Apart
import SourceCoding.Proofs.Hindsight

/-!
# The order of the sources

Two sources of which neither is the backup of the other have no place in common, also where the name
of one begins with that of the other. So what patching the one does the other does not notice, and
they may be patched in either order, whether patching succeeds or fails. Of a whole pass in another
order the same is true, as long as it is not broken off: every source comes to the same result, the
same tree is left, and the summaries differ in the order of their lists. Where a failure ends the
pass, it is broken off in every order, in each at the first of its sources that fails.

## Main definitions

* `BackupStore.Clear`: two sources of which neither is the backup of the other
* `Tree.OnDesk`: a location is the place of a source or of its backup
* `Patcher.Treated`: a session in which some sources have been patched and no others
* `Summary.Reordered`: two summaries differ in the order of their lists
* `Pass.runOver`: the pass over its sources in some order
* `Pass.BrokenOff`: that pass ends at the first source that fails

## Main results

* `Treated.step`: one source more, as if it were patched alone
* `Treated.tree_eq`: the order leaves no trace in the tree
* `Reordered.foldl`: nor in the summary, save in the order of its lists
* `patches_commute`: two sources in either order, and passes in any order
-/

namespace SourceCoding

/-- **Two sources are clear of each other**: they differ, and neither is the backup of the other. -/
def BackupStore.Clear (b : BackupStore) (f g : Path) : Prop :=
  f ≠ g ∧ g ≠ b.backupPath f ∧ f ≠ b.backupPath g

instance (b : BackupStore) (f g : Path) : Decidable (b.Clear f g) :=
  inferInstanceAs (Decidable (_ ∧ _ ∧ _))

theorem BackupStore.Clear.symm {b : BackupStore} {f g : Path} (h : b.Clear f g) : b.Clear g f :=
  ⟨h.1.symm, h.2.2, h.2.1⟩

/-! ## Places -/

namespace Tree

/-- A location is the place of a source or of its backup. -/
def OnDesk (t : Tree) (cwd : Location) (b : BackupStore) (f : Path) (m : Location) : Prop :=
  ∃ d n, t.Enters cwd f d n ∧ (m = d ++ [n] ∨ m = d ++ [n ++ b.suffix])

variable {t : Tree} {cwd d m : Location} {c : Config} {root f g : Path} {n : Bytes}
  {b : BackupStore}

theorem onDesk_iff (h : t.Enters cwd f d n) :
    t.OnDesk cwd b f m ↔ m = d ++ [n] ∨ m = d ++ [n ++ b.suffix] := by
  constructor
  · rintro ⟨d', n', h', hm⟩
    obtain ⟨rfl, rfl⟩ := enters_unique h h'
    exact hm
  · exact fun hm => ⟨d, n, h, hm⟩

/-- **Sources that are clear of each other have no place in common.** -/
theorem OnDesk.not_of_clear (h : t.OnDesk cwd b f m) (hclear : b.Clear f g)
    (hf : f ∈ (t.survey cwd c root).sources) (hg : g ∈ (t.survey cwd c root).sources) :
    ¬ t.OnDesk cwd b g m := by
  rintro ⟨d', n', hgn, hg'⟩
  obtain ⟨d, n, hfn, hf'⟩ := h
  obtain ⟨hne, hright, hleft⟩ := hclear
  rcases hf' with rfl | rfl <;> rcases hg' with heq | heq <;>
    obtain ⟨rfl, hn⟩ := location_inj heq
  · exact hne (eq_of_enters hf hg hfn (hn ▸ hgn))
  · exact hleft (eq_backupPath hg hf hgn (hn ▸ hfn))
  · exact hright (eq_backupPath hf hg hfn (hn ▸ hgn))
  · obtain rfl := List.append_cancel_right hn
    exact hne (eq_of_enters hf hg hfn hgn)

end Tree

/-! ## Sources patched so far -/

/-- **A session in which some sources have been patched** and no others: in their places stands what
each leaves when it is patched alone, and in no other place has anything changed. -/
structure Patcher.Treated (p : Patcher) (s : Session) (done : List Path) (s₁ : Session) : Prop where
  /-- The directories are there. -/
  steady : Steady s.tree s.cwd s₁
  /-- What stands on the desks of the sources. -/
  desks : ∀ f ∈ done, ∀ m, s.tree.OnDesk s.cwd p.store f m →
    s₁.tree.get? m = ((p.patch f).runIn s).2.tree.get? m
  /-- What stands elsewhere. -/
  other : ∀ m, (∀ f ∈ done, ¬ s.tree.OnDesk s.cwd p.store f m) → s₁.tree.get? m = s.tree.get? m

namespace Patcher.Treated

variable {p : Patcher} {s s₁ s₂ : Session} {done done' : List Path} {c : Config} {root g : Path}

theorem nil (ht : s.tree.LinkFree) : p.Treated s [] s := ⟨.refl ht, by simp, fun _ _ => rfl⟩

theorem tell (h : p.Treated s done s₁) (es : List Event) : p.Treated s done (s₁.tell es) :=
  ⟨h.steady.tell es, h.desks, h.other⟩

/-- **One source more**, as if it were patched alone. -/
theorem step (h : p.Treated s done s₁) (hb : p.store.Proper) (ht : s.tree.LinkFree)
    (hdone : ∀ f ∈ done, f ∈ (s.tree.survey s.cwd c root).sources)
    (hg : g ∈ (s.tree.survey s.cwd c root).sources) (hclear : ∀ f ∈ done, p.store.Clear f g) :
    ((p.patch g).runIn s₁).1 = ((p.patch g).runIn s).1 ∧
      p.Treated s (done ++ [g]) ((p.patch g).runIn s₁).2 := by
  obtain ⟨d, n, hat⟩ := Tree.exists_sourceAt hg
  -- The desk of the source is as it was, since it is clear of those that have been patched.
  have huntouched : ∀ m, s.tree.OnDesk s.cwd p.store g m → s₁.tree.get? m = s.tree.get? m := by
    intro m hm
    refine h.other m fun f hf hfm => ?_
    exact hfm.not_of_clear (hclear f hf) (hdone f hf) hg hm
  have hdesk : s₁.tree.deskAt p.store.suffix d n = s.tree.deskAt p.store.suffix d n := by
    rw [Tree.deskAt, Tree.deskAt, huntouched _ ((Tree.onDesk_iff hat.enters).2 (.inl rfl)),
      huntouched _ ((Tree.onDesk_iff hat.enters).2 (.inr rfl))]
  obtain ⟨hsteady, hother, -⟩ := h.steady.patch hb hat.enters
  have hkept : ∀ m, ¬ s.tree.OnDesk s.cwd p.store g m →
      ((p.patch g).runIn s₁).2.tree.get? m = s₁.tree.get? m := by
    intro m hm
    rw [Tree.onDesk_iff hat.enters, not_or] at hm
    exact hother m hm.1 hm.2
  refine ⟨(Steady.refl ht).patch_congr h.steady hb hat.enters hdesk, hsteady, ?_, ?_⟩
  · intro f hf m hm
    rw [List.mem_append, List.mem_singleton] at hf
    rcases hf with hf | rfl
    · rw [hkept m (hm.not_of_clear (hclear f hf) (hdone f hf) hg)]
      exact h.desks f hf m hm
    · have hafter := (Steady.refl ht).desk_congr h.steady hb hat.enters hdesk
      obtain ⟨hsource, hbackup⟩ := Desk.mk.inj hafter
      rcases (Tree.onDesk_iff hat.enters).1 hm with rfl | rfl
      · exact hsource
      · exact hbackup
  · intro m hm
    rw [hkept m (hm g (by simp))]
    exact h.other m fun f hf => hm f (List.mem_append_left _ hf)

/-- **The order leaves no trace in the tree.** -/
theorem tree_eq (h : p.Treated s done s₁) (h' : p.Treated s done' s₂)
    (hsame : ∀ f, f ∈ done ↔ f ∈ done') : s₁.tree = s₂.tree := by
  apply Tree.ext_get?
  intro m
  by_cases hm : ∃ f ∈ done, s.tree.OnDesk s.cwd p.store f m
  · obtain ⟨f, hf, hm⟩ := hm
    rw [h.desks f hf m hm, h'.desks f ((hsame f).1 hf) m hm]
  · simp only [not_exists, not_and] at hm
    rw [h.other m hm, h'.other m fun f hf => hm f ((hsame f).2 hf)]

end Patcher.Treated

/-! ## Summaries in another order -/

namespace Summary

/-- **Two summaries differ in the order of their lists** and in nothing else. -/
structure Reordered (S S' : Summary) : Prop where
  /-- The directory. -/
  root : S.root = S'.root
  /-- Whether sources were only inspected. -/
  checkOnly : S.checkOnly = S'.checkOnly
  /-- The number of sources. -/
  filesScanned : S.filesScanned = S'.filesScanned
  /-- The number of those in order. -/
  alreadyCompliant : S.alreadyCompliant = S'.alreadyCompliant
  /-- Those that got a declaration. -/
  patched : S.patched.Perm S'.patched
  /-- Those without a declaration. -/
  nonCompliant : S.nonCompliant.Perm S'.nonCompliant
  /-- Those that were restored. -/
  recovered : S.recovered.Perm S'.recovered
  /-- Those with a backup that was left. -/
  pendingBackups : S.pendingBackups.Perm S'.pendingBackups
  /-- Those that could not be processed. -/
  failures : S.failures.Perm S'.failures

namespace Reordered

variable {S S' S'' : Summary}

theorem refl (S : Summary) : S.Reordered S :=
  ⟨rfl, rfl, rfl, rfl, .refl _, .refl _, .refl _, .refl _, .refl _⟩

theorem trans (h : S.Reordered S') (h' : S'.Reordered S'') : S.Reordered S'' :=
  ⟨h.root.trans h'.root, h.checkOnly.trans h'.checkOnly, h.filesScanned.trans h'.filesScanned,
    h.alreadyCompliant.trans h'.alreadyCompliant, h.patched.trans h'.patched,
    h.nonCompliant.trans h'.nonCompliant, h.recovered.trans h'.recovered,
    h.pendingBackups.trans h'.pendingBackups, h.failures.trans h'.failures⟩

end Reordered

/-- What comes of a source is put on record behind what is there. -/
theorem tally_eq (f : Path) (r : Except Failure Outcome) (checkOnly : Bool) :
    ∃ compliant patched nonCompliant recovered pending failures, ∀ S : Summary,
      S.checkOnly = checkOnly → S.tally f r =
        { S with
          alreadyCompliant := S.alreadyCompliant + compliant
          patched := S.patched ++ patched
          nonCompliant := S.nonCompliant ++ nonCompliant
          recovered := S.recovered ++ recovered
          pendingBackups := S.pendingBackups ++ pending
          failures := S.failures ++ failures } := by
  cases r with
  | error e => exact ⟨0, [], [], [], [], [⟨f, e.message⟩], by simp [tally, recordFailure]⟩
  | ok o =>
    obtain ⟨path, action, hadBackup⟩ := o
    refine ⟨if action = .alreadyCompliant then 1 else 0, if action = .patched then [path] else [],
      if action = .wouldPatch then [path] else [],
      if hadBackup ∧ checkOnly = false then [path] else [],
      if hadBackup ∧ checkOnly then [path] else [], [], ?_⟩
    rintro S rfl
    cases hadBackup <;> cases action <;> cases hS : S.checkOnly <;>
      simp [tally, record, recordBackup, recordAction, hS]

namespace Reordered

variable {S S' : Summary}

theorem tally (h : S.Reordered S') (f : Path) (r : Except Failure Outcome) :
    (S.tally f r).Reordered (S'.tally f r) := by
  obtain ⟨_, _, _, _, _, _, heq⟩ := tally_eq f r S.checkOnly
  rw [heq S rfl, heq S' h.checkOnly.symm]
  exact ⟨h.root, h.checkOnly, h.filesScanned, congrArg (· + _) h.alreadyCompliant,
    h.patched.append_right _, h.nonCompliant.append_right _, h.recovered.append_right _,
    h.pendingBackups.append_right _, h.failures.append_right _⟩

/-- Two sources may be put on record in either order. -/
theorem tally_comm (S : Summary) (f g : Path) (r r' : Except Failure Outcome) :
    ((S.tally f r).tally g r').Reordered ((S.tally g r').tally f r) := by
  have hswap : ∀ {α : Type} (xs ys zs : List α), (xs ++ ys ++ zs).Perm (xs ++ zs ++ ys) := by
    intro α xs ys zs
    rw [List.append_assoc, List.append_assoc]
    exact List.perm_append_comm.append_left xs
  have hf := checkOnly_tally S f r
  have hg := checkOnly_tally S g r'
  obtain ⟨_, _, _, _, _, _, heq⟩ := tally_eq f r S.checkOnly
  obtain ⟨_, _, _, _, _, _, heq'⟩ := tally_eq g r' S.checkOnly
  rw [heq' _ hf, heq _ hg, heq _ rfl, heq' _ rfl]
  exact ⟨rfl, rfl, rfl, Nat.add_right_comm .., hswap .., hswap .., hswap .., hswap .., hswap ..⟩

/-- **Sources may be put on record in any order.** -/
theorem foldl {order order' : List Path} (hperm : order.Perm order')
    (result : Path → Except Failure Outcome) (h : S.Reordered S') :
    (order.foldl (fun S f => S.tally f (result f)) S).Reordered
      (order'.foldl (fun S f => S.tally f (result f)) S') := by
  have hrest : ∀ (rest : List Path) {S S' : Summary}, S.Reordered S' →
      (rest.foldl (fun S f => S.tally f (result f)) S).Reordered
        (rest.foldl (fun S f => S.tally f (result f)) S') := by
    intro rest
    induction rest with
    | nil => exact id
    | cons f rest ih => exact fun h => ih (h.tally f (result f))
  induction hperm generalizing S S' with
  | nil => exact h
  | cons f _ ih => exact ih (h.tally f (result f))
  | swap f g rest =>
    exact (hrest rest (tally_comm S g f (result g) (result f))).trans
      (hrest rest ((h.tally f (result f)).tally g (result g)))
  | trans _ _ ih₁ ih₂ => exact (ih₁ h).trans (ih₂ (.refl S'))

end Reordered

end Summary

/-! ## Passes in some order -/

namespace Pass

/-- **The pass over its sources in some order.** -/
def runOver (p : Pass) (root : Path) (order : List Path) : Act Abort Summary :=
  order.foldlM p.step (p.blank root order)

/-- What comes of a source that is patched alone. -/
def alone (p : Pass) (s : Session) (f : Path) : Except Failure Outcome :=
  ((p.patcher.patch f).runIn s).1

/-- The summary of sources that come each to what it comes to alone. -/
def accounted (p : Pass) (s : Session) (root : Path) (order : List Path) : Summary :=
  order.foldl (fun S f => S.tally f (p.alone s f)) (p.blank root order)

/-- **The pass is broken off** at the first source in the order that fails alone. -/
def BrokenOff (p : Pass) (s : Session) (root : Path) (order : List Path) : Prop :=
  ∃ done f rest e, order = done ++ f :: rest ∧ (∀ g ∈ done, ∃ o, p.alone s g = .ok o) ∧
    p.alone s f = .error e ∧ ((p.runOver root order).runIn s).1 = .error (.processing f e)

variable {p : Pass} {s : Session} {root root' : Path} {order : List Path}

/-- **A loop over sources that are clear of each other** comes to its end where no failure ends it,
and every source to what it comes to alone. -/
theorem foldlM_clear (hc : p.config.Valid) (ht : s.tree.LinkFree)
    (hfound : ∀ f ∈ order, f ∈ (s.tree.survey s.cwd p.config root).sources)
    (hclear : order.Pairwise p.patcher.store.Clear)
    (hgo : p.config.failFast → ∀ f ∈ order, ∃ o, p.alone s f = .ok o) (S : Summary) :
    ∃ s', (order.foldlM p.step S).runIn s =
        (.ok (order.foldl (fun S f => S.tally f (p.alone s f)) S), s') ∧
      p.patcher.Treated s order s' := by
  have hb : p.patcher.store.Proper := hc.proper p.faults
  -- The invariant: the sources so far are on record, and no others have been patched.
  obtain ⟨S', s', hr, rfl, htreated⟩ : ∃ S' s', (order.foldlM p.step S).runIn s = (.ok S', s') ∧
      S' = order.foldl (fun S f => S.tally f (p.alone s f)) S ∧ p.patcher.Treated s order s' := by
    refine foldlM_total (I := fun done S₁ s₁ =>
      S₁ = done.foldl (fun S f => S.tally f (p.alone s f)) S ∧ p.patcher.Treated s done s₁) ?_
      ⟨rfl, .nil ht⟩
    rintro done f rest S₁ s₁ rfl ⟨rfl, hdone⟩
    rw [List.pairwise_append] at hclear
    obtain ⟨hresult, hdone'⟩ := hdone.step hb ht (fun g hg => hfound g (List.mem_append_left _ hg))
      (hfound f (by simp)) fun g hg => hclear.2.2 g hg f List.mem_cons_self
    rw [List.foldl_append, List.foldl_cons, List.foldl_nil, alone, ← hresult]
    cases hfast : p.config.failFast with
    | false =>
      obtain ⟨told, hstep⟩ := step_of_not_failFast hfast
        (done.foldl (fun S f => S.tally f (p.alone s f)) S) s₁ f
      exact ⟨_, _, hstep, rfl, hdone'.tell told⟩
    | true =>
      obtain ⟨o, ho⟩ := hgo hfast f (by simp)
      have hpatch : (p.patcher.patch f).runIn s₁ = (.ok o, ((p.patcher.patch f).runIn s₁).2) :=
        Prod.ext (hresult.trans ho) rfl
      exact ⟨_, _, step_of_ok hpatch, by rw [hpatch]; rfl, hdone'.tell _⟩
  exact ⟨s', hr, htreated⟩

/-- Where a source fails, one is the first to fail. -/
theorem exists_first_error (result : Path → Except Failure Outcome) {f : Path} {e : Failure}
    (hf : f ∈ order) (he : result f = .error e) :
    ∃ done g rest e', order = done ++ g :: rest ∧ (∀ h ∈ done, ∃ o, result h = .ok o) ∧
      result g = .error e' := by
  induction order with
  | nil => simp at hf
  | cons g rest ih =>
    cases hr : result g with
    | error e' => exact ⟨[], g, rest, e', rfl, by simp, hr⟩
    | ok o =>
      have hne : f ≠ g := by
        rintro rfl
        simp [hr] at he
      obtain ⟨done, h, rest, e', rfl, hdone, he'⟩ := ih (List.mem_of_ne_of_mem hne hf)
      exact ⟨g :: done, h, rest, e', rfl, List.forall_mem_cons.2 ⟨⟨o, hr⟩, hdone⟩, he'⟩

/-- **Where a failure ends the pass** it ends it at the first source that fails alone. -/
theorem brokenOff_of_error {f : Path} {e : Failure} (hc : p.config.Valid) (ht : s.tree.LinkFree)
    (hfound : ∀ f ∈ order, f ∈ (s.tree.survey s.cwd p.config root').sources)
    (hclear : order.Pairwise p.patcher.store.Clear) (hfast : p.config.failFast)
    (hf : f ∈ order) (he : p.alone s f = .error e) : p.BrokenOff s root order := by
  obtain ⟨done, g, rest, e', rfl, hok, he'⟩ := exists_first_error (p.alone s) hf he
  refine ⟨done, g, rest, e', rfl, hok, he', ?_⟩
  rw [List.pairwise_append] at hclear
  -- The sources before it come to what they come to alone, and so does it.
  obtain ⟨s₁, hr, htreated⟩ := foldlM_clear hc ht
    (fun g hg => hfound g (List.mem_append_left _ hg)) hclear.1 (fun _ => hok)
    (p.blank root (done ++ g :: rest))
  obtain ⟨hresult, -⟩ := htreated.step (hc.proper p.faults) ht
    (fun g hg => hfound g (List.mem_append_left _ hg)) (hfound g (by simp))
    fun f hf => hclear.2.2 f hf g List.mem_cons_self
  have hpatch : (p.patcher.patch g).runIn s₁ = (.error e', ((p.patcher.patch g).runIn s₁).2) :=
    Prod.ext (hresult.trans he') rfl
  rw [runOver, List.foldlM_append, Act.runIn_bind, hr]
  dsimp only
  rw [List.foldlM_cons, Act.runIn_bind, runIn_step, hpatch]
  simp [hfast]

/-- What a pass comes to is what it comes to over its sources in the order of the collection. -/
theorem run_eq_runOver (ho : (s.tree.survey s.cwd p.config root).obstacle = none) :
    ((p.run root).runIn s).1 =
        ((p.runOver root (s.tree.survey s.cwd p.config root).sources).runIn s).1 ∧
      ((p.run root).runIn s).2.tree =
        ((p.runOver root (s.tree.survey s.cwd p.config root).sources).runIn s).2.tree := by
  have hforgets : (p.runOver root (s.tree.survey s.cwd p.config root).sources).Forgets :=
    Act.forgets_foldlM p.forgets_step _ _
  have htell : (s.tell (p.opening root (s.tree.survey s.cwd p.config root))).tree = s.tree := rfl
  obtain ⟨hresult, htree⟩ := hforgets.congr htell rfl
  rw [← hresult, ← htree, runIn_run]
  simp only [ho, runOver]
  split <;> rename_i heq <;> rw [heq] <;> exact ⟨rfl, rfl⟩

end Pass

/-- **Patches of different sources commute.** Two sources of a tree without links, neither of which
is the backup of the other, may be patched in either order: the same tree is left, and each comes to
what it comes to alone, be it an outcome or a failure. So a pass over such sources may take them in
any order. Either it comes to its end, with the same tree and with each source put on record as what
it comes to alone; or a failure ends it, in any order at the first source that fails alone. What a
pass does is what it does in the order in which the sources are found. -/
theorem patches_commute {p : Pass} {s : Session} {root : Path} (hc : p.config.Valid)
    (ht : s.tree.LinkFree) :
    (∀ f ∈ (s.tree.survey s.cwd p.config root).sources,
      ∀ g ∈ (s.tree.survey s.cwd p.config root).sources, p.patcher.store.Clear f g →
      ((p.patcher.patch g).runIn ((p.patcher.patch f).runIn s).2).2.tree =
          ((p.patcher.patch f).runIn ((p.patcher.patch g).runIn s).2).2.tree ∧
        ((p.patcher.patch f).runIn ((p.patcher.patch g).runIn s).2).1 =
          ((p.patcher.patch f).runIn s).1 ∧
        ((p.patcher.patch g).runIn ((p.patcher.patch f).runIn s).2).1 =
          ((p.patcher.patch g).runIn s).1) ∧
    (∀ order order', order.Perm order' →
      (∀ f ∈ order, f ∈ (s.tree.survey s.cwd p.config root).sources) →
      order.Pairwise p.patcher.store.Clear →
      (∃ s₁ s₂, (p.runOver root order).runIn s = (.ok (p.accounted s root order), s₁) ∧
        (p.runOver root order').runIn s = (.ok (p.accounted s root order'), s₂) ∧
        s₁.tree = s₂.tree ∧ (p.accounted s root order).Reordered (p.accounted s root order')) ∨
      p.config.failFast ∧ p.BrokenOff s root order ∧ p.BrokenOff s root order') ∧
    ((s.tree.survey s.cwd p.config root).obstacle = none →
      ((p.run root).runIn s).1 =
          ((p.runOver root (s.tree.survey s.cwd p.config root).sources).runIn s).1 ∧
        ((p.run root).runIn s).2.tree =
          ((p.runOver root (s.tree.survey s.cwd p.config root).sources).runIn s).2.tree) := by
  have hb : p.patcher.store.Proper := hc.proper p.faults
  have hnil : p.patcher.Treated s [] s := .nil ht
  refine ⟨?_, ?_, Pass.run_eq_runOver⟩
  · intro f hf g hg hclear
    obtain ⟨-, hfirst⟩ := hnil.step hb ht (by simp) hf (by simp)
    obtain ⟨-, hfirst'⟩ := hnil.step hb ht (by simp) hg (by simp)
    obtain ⟨hresult, hboth⟩ := hfirst.step hb ht (by simpa using hf) hg (by simpa using hclear)
    obtain ⟨hresult', hboth'⟩ :=
      hfirst'.step hb ht (by simpa using hg) hf (by simpa using hclear.symm)
    exact ⟨hboth.tree_eq hboth' fun h => by simp [or_comm], hresult', hresult⟩
  · intro order order' hperm hfound hclear
    have hfound' : ∀ f ∈ order', f ∈ (s.tree.survey s.cwd p.config root).sources :=
      fun f hf => hfound f (hperm.mem_iff.2 hf)
    have hclear' : order'.Pairwise p.patcher.store.Clear := hperm.pairwise hclear fun h => h.symm
    by_cases hgo : p.config.failFast → ∀ f ∈ order, ∃ o, p.alone s f = .ok o
    · left
      obtain ⟨s₁, hr, htreated⟩ := Pass.foldlM_clear hc ht hfound hclear hgo (p.blank root order)
      obtain ⟨s₂, hr', htreated'⟩ := Pass.foldlM_clear hc ht hfound' hclear'
        (fun hfast f hf => hgo hfast f (hperm.mem_iff.2 hf)) (p.blank root order')
      refine ⟨s₁, s₂, hr, hr', htreated.tree_eq htreated' fun _ => hperm.mem_iff, ?_⟩
      have hblank : p.blank root order = p.blank root order' := by
        simp [Pass.blank, hperm.length_eq]
      exact Summary.Reordered.foldl hperm _ (hblank ▸ .refl _)
    · right
      simp only [not_forall, not_exists] at hgo
      obtain ⟨hfast, f, hf, hfails⟩ := hgo
      cases hr : p.alone s f with
      | ok o => exact absurd hr (hfails o)
      | error e =>
        exact ⟨hfast, Pass.brokenOff_of_error hc ht hfound hclear hfast hf hr,
          Pass.brokenOff_of_error hc ht hfound' hclear' hfast (hperm.mem_iff.1 hf) hr⟩

/-- Of three sources one has a backup, one, whose name begins with that of the first, cannot be
written, and of one no backup can be made. They may be patched in either order. -/
theorem patches_commute_of_faults :
    let t := (((Tree.lone (Bytes.ofString "a.py") (Bytes.ofString "x = 1")).put
      [Bytes.ofString "a.py.checker"] (.file (Bytes.ofString "y = 2"))).put
      [Bytes.ofString "a.py.py"] (.file (Bytes.ofString "z = 3"))).put
      [Bytes.ofString "b.py"] (.file (Bytes.ofString "w = 4"))
    let p : Pass := ⟨{}, .apply, [⟨.commit, Path.ofString "/a.py.py"⟩,
      ⟨.store, Path.ofString "/b.py"⟩]⟩
    let order := ["/a.py", "/a.py.py", "/b.py"].map Path.ofString
    ∃ S S' s₁ s₂, (p.runOver (Path.ofString "/") order).runIn ⟨t, [], []⟩ = (.ok S, s₁) ∧
      (p.runOver (Path.ofString "/") order.reverse).runIn ⟨t, [], []⟩ = (.ok S', s₂) ∧
      s₁.tree = s₂.tree ∧ S.Reordered S' ∧ S.recovered = [Path.ofString "/a.py"] ∧
      S.failures.map SkippedSource.path = ["/a.py.py", "/b.py"].map Path.ofString ∧
      S'.failures.map SkippedSource.path = ["/b.py", "/a.py.py"].map Path.ofString := by
  intro t p order
  have ht : t.LinkFree :=
    (((Tree.linkFree_lone _ _).put (by simp)).put (by simp)).put (by simp)
  have hsources : (t.survey [] {} (Path.ofString "/")).sources = order := by decide +kernel
  obtain ⟨-, horders, -⟩ :=
    @patches_commute p ⟨t, [], []⟩ (Path.ofString "/") Config.valid_default ht
  have hlists : ((p.accounted ⟨t, [], []⟩ (Path.ofString "/") order).recovered =
        [Path.ofString "/a.py"] ∧
      (p.accounted ⟨t, [], []⟩ (Path.ofString "/") order).failures.map SkippedSource.path =
        ["/a.py.py", "/b.py"].map Path.ofString) ∧
      (p.accounted ⟨t, [], []⟩ (Path.ofString "/") order.reverse).failures.map
        SkippedSource.path = ["/b.py", "/a.py.py"].map Path.ofString := by decide +kernel
  rcases horders order order.reverse order.reverse_perm.symm (fun f hf => hsources ▸ hf)
    (by decide +kernel) with ⟨s₁, s₂, hr, hr', htree, hreordered⟩ | ⟨hfast, -⟩
  · exact ⟨_, _, s₁, s₂, hr, hr', htree, hreordered, hlists.1.1, hlists.1.2, hlists.2⟩
  · cases hfast

end SourceCoding
