import SourceCoding.Proofs.Account
import SourceCoding.Proofs.Linkless

/-!
# The calls on the store of backups

A source is treated by a word of calls on the store of backups, and each call is made in a state
that calls for it: a backup is made of what stands in the source, and it is removed when the source
holds its content again, or this content with a declaration. So a content that is dropped is never
the only copy.

The states are read off the desk of the source first, operation by operation, and the desk of a
source in a tree without links changes as the operations say.

## Main definitions

* `Desk.Plays`: events lead from one desk to another, and every call is in order where it is made
* `callWords`: the words of calls
* `Event.InOrder`: a call on the store is in order in a tree
* `Tree.Sees`: something holds of each event in the tree in which it is told

## Main results

* `Patcher.plays_turn`, `Patcher.turn_calls`: the calls of a turn on a desk
* `Desk.Plays.sees`: what is played on a desk is seen in the tree
* `calls_in_order`: the calls of a whole pass
-/

namespace SourceCoding

/-! ## Operations on a desk -/

/-- What an operation leaves at its path. -/
def Operation.left : Operation → Option Entry
  | .write _ content => some (.file content)
  | .makeDirectory _ => some .dir
  | .remove _ | .removeAll _ => none

/-- An operation is about a source or its backup, and about nothing beneath them. -/
def BackupStore.Handles (b : BackupStore) (f : Path) : Operation → Prop
  | .write path _ | .remove path | .makeDirectory path => path = f ∨ path = b.backupPath f
  | .removeAll _ => False

/-- The desk of a source after an operation on the source or on its backup. -/
def Desk.after (d : Desk) (f : Path) (op : Operation) : Desk :=
  if op.path = f then { d with source := op.left } else { d with backup := op.left }

/-- **A call on the store of backups is in order** on a desk. A backup is made where there is none,
of a content that stands in the source and lacks a declaration; it is removed when its content, or
this content with a declaration, stands in the source. -/
def Desk.Calls (d : Desk) (declaration : Bytes) : StoreCall → Prop
  | .pending => True
  | .store content =>
    d.source = some (.file content) ∧ isCompliant content = false ∧ d.backup = none
  | .discard => ∃ saved, d.backup = some (.file saved) ∧
    (d.source = some (.file saved) ∨
      d.source = some (.file (insertDeclaration declaration saved)))

/-- **Events lead from one desk to another**, and every call is in order on the desk on which it is
made. -/
inductive Desk.Plays (b : BackupStore) (declaration : Bytes) (f : Path) :
    Desk → List Event → Desk → Prop
  /-- Nothing is told. -/
  | nil (d : Desk) : Plays b declaration f d [] d
  /-- A call on the store of backups. -/
  | call {d d' : Desk} {call : StoreCall} {es : List Event} (hcall : d.Calls declaration call)
    (hes : Plays b declaration f d es d') :
    Plays b declaration f d (.storeCalled call f :: es) d'
  /-- An operation on the source or on its backup. -/
  | change {d d' : Desk} {op : Operation} {es : List Event} (hop : b.Handles f op)
    (hes : Plays b declaration f (d.after f op) es d') :
    Plays b declaration f d (.changed op :: es) d'
  /-- Something else. -/
  | other {d d' : Desk} {e : Event} {es : List Event} (hop : e.operation? = none)
    (hcall : e.storeCall? = none) (hes : Plays b declaration f d es d') :
    Plays b declaration f d (e :: es) d'

theorem Path.append_ne {suffix : Bytes} (f : Path) (h : suffix ≠ []) : f.append suffix ≠ f := by
  intro heq
  have hbytes := congrArg Path.bytes heq
  rw [Path.bytes_append] at hbytes
  exact h (List.append_right_eq_self.1 hbytes)

namespace Desk.Plays

variable {b : BackupStore} {declaration : Bytes} {f : Path} {d d' d'' : Desk} {es es' : List Event}

theorem append (h : Plays b declaration f d es d') (h' : Plays b declaration f d' es' d'') :
    Plays b declaration f d (es ++ es') d'' := by
  induction h with
  | nil => exact h'
  | call hcall _ ih => exact .call hcall (ih h')
  | change hop _ ih => exact .change hop (ih h')
  | other hop hcall _ ih => exact .other hop hcall (ih h')

/-- One turn after another. -/
theorem bind {α β : Type} {u : Turn α} {next : α → Desk → Turn β}
    (h : Plays b declaration f d u.told u.desk)
    (hnext : ∀ x, u.result = .ok x →
      Plays b declaration f u.desk (next x u.desk).told (next x u.desk).desk) :
    Plays b declaration f d (u.bind next).told (u.bind next).desk := by
  cases hr : u.result with
  | error e =>
    rw [Turn.bind_of_error hr]
    exact h
  | ok x =>
    rw [Turn.bind_of_ok hr]
    exact h.append (hnext x hr)

/-- Something else is told. -/
theorem single {e : Event} (hop : e.operation? = none) (hcall : e.storeCall? = none) :
    Plays b declaration f d [e] d :=
  .other hop hcall (.nil d)

/-- An operation on the source. -/
theorem changeSource {op : Operation} (hop : b.Handles f op) (h : op.path = f)
    (hes : Plays b declaration f { d with source := op.left } es d') :
    Plays b declaration f d (.changed op :: es) d' := by
  refine .change hop ?_
  rw [Desk.after, if_pos h]
  exact hes

/-- An operation on the backup. -/
theorem changeBackup {op : Operation} (hb : b.Proper) (hop : b.Handles f op)
    (h : op.path = b.backupPath f)
    (hes : Plays b declaration f { d with backup := op.left } es d') :
    Plays b declaration f d (.changed op :: es) d' := by
  refine .change hop ?_
  rw [Desk.after, if_neg (h ▸ f.append_ne hb.ne_nil)]
  exact hes

end Desk.Plays

/-! ## The calls of a turn -/

section

variable {b : BackupStore} {declaration content : Bytes} {f : Path} {d : Desk} {p : Patcher}

theorem plays_write (b : BackupStore) (declaration : Bytes) (f : Path) (content : Bytes)
    (d : Desk) :
    Desk.Plays b declaration f d (writeTurn f content d).told (writeTurn f content d).desk := by
  unfold writeTurn
  split_ifs
  · exact .nil d
  · exact .changeSource (.inl rfl) rfl (.nil _)

theorem BackupStore.plays_discard (hb : b.Proper) (h : d.Calls declaration .discard) :
    Desk.Plays b declaration f d (b.discardTurn f d).told (b.discardTurn f d).desk := by
  unfold discardTurn
  dsimp only
  split_ifs
  · exact .call h (.nil d)
  · exact .call h (.changeBackup hb (.inr rfl) rfl (.nil _))

theorem BackupStore.plays_store (hb : b.Proper) (h : d.Calls declaration (.store content)) :
    Desk.Plays b declaration f d (b.storeTurn f content d).told (b.storeTurn f content d).desk := by
  unfold storeTurn
  dsimp only
  split_ifs
  · exact .call h (.nil d)
  · exact .call h (.changeBackup hb (.inr rfl) rfl
      (.changeSource (.inl rfl) rfl (.changeSource (.inl rfl) rfl (.nil _))))
  · exact .call h (.changeBackup hb (.inr rfl) rfl (.nil _))

namespace Patcher

theorem plays_restore (hb : p.store.Proper) (hd : d.backup = some (.file content)) :
    Desk.Plays p.store p.declaration f d (p.restoreTurn f content d).told
      (p.restoreTurn f content d).desk := by
  refine .bind (.single rfl rfl) fun _ _ => .bind (plays_write ..) fun _ hw => ?_
  have hdir : d.source ≠ some .dir := by
    intro hdir
    simp [writeTurn, hdir] at hw
  refine .bind (BackupStore.plays_discard hb ?_) fun _ _ => .single rfl rfl
  simp only [writeTurn, if_neg hdir]
  exact ⟨content, hd, .inl rfl⟩

theorem plays_declare (hb : p.store.Proper) (hc : isCompliant content = false) :
    Desk.Plays p.store p.declaration f ⟨some (.file content), none⟩
      (p.declareTurn f content ⟨some (.file content), none⟩).told
      (p.declareTurn f content ⟨some (.file content), none⟩).desk := by
  refine .bind (BackupStore.plays_store hb ⟨rfl, hc, rfl⟩) fun _ hs =>
    .bind (plays_write ..) fun _ hw => ?_
  have hbackup : (p.store.storeTurn f content ⟨some (.file content), none⟩).desk.backup =
      some (.file content) := by
    unfold BackupStore.storeTurn at hs ⊢
    split_ifs at hs ⊢ <;> simp_all
  generalize (p.store.storeTurn f content ⟨some (.file content), none⟩).desk = d₁ at hbackup hw
  have hdir : d₁.source ≠ some .dir := by
    intro hdir
    simp [writeTurn, hdir] at hw
  refine .bind (BackupStore.plays_discard hb ?_) fun _ _ => .single rfl rfl
  simp only [writeTurn, if_neg hdir]
  exact ⟨content, hbackup, .inr rfl⟩

theorem plays_reconcile {backup : Option Bytes} (hb : p.store.Proper)
    (hd : d.backup = backup.map .file) :
    Desk.Plays p.store p.declaration f d (p.reconcileTurn f d backup).told
      (p.reconcileTurn f d backup).desk := by
  cases backup with
  | none => exact .nil d
  | some saved =>
    refine .bind (.single rfl rfl) fun _ _ => ?_
    cases p.mode with
    | check => exact .single rfl rfl
    | apply => exact .bind (plays_restore hb hd) fun _ _ => .nil _

theorem plays_settle (hb : p.store.Proper)
    (hd : p.mode = .apply → d = ⟨some (.file content), none⟩) :
    Desk.Plays p.store p.declaration f d (p.settleTurn f content d).told
      (p.settleTurn f content d).desk := by
  unfold settleTurn
  split
  · exact .single rfl rfl
  · rename_i hc
    cases hm : p.mode with
    | check => exact .nil d
    | apply =>
      obtain rfl := hd hm
      exact .bind (plays_declare hb (by simpa using hc)) fun _ _ => .nil _

/-- **The events of a turn** lead from the desk at its beginning to that at its end, and every call
is in order. -/
theorem plays_turn (hb : p.store.Proper) (f : Path) (d : Desk) :
    Desk.Plays p.store p.declaration f d (p.turn f d).told (p.turn f d).desk := by
  refine .bind (.call trivial (.nil d)) fun backup hbackup => ?_
  have hd := pendingTurn_eq_ok hbackup
  refine .bind (plays_reconcile hb hd) fun content hr => ?_
  refine .bind (plays_settle hb fun hm => ?_) fun _ _ => .nil _
  exact (reconcileTurn_eq_ok hm hd hr).2

end Patcher

end

/-! ## The words of calls -/

/-- **The words of calls** by which a source is treated where it may be changed. -/
def callWords : List (List String) :=
  [["pending"], ["pending", "discard"], ["pending", "store"], ["pending", "store", "discard"],
    ["pending", "discard", "store"], ["pending", "discard", "store", "discard"]]

section

variable {p : Patcher} {f : Path} {content : Bytes} {d : Desk}

@[simp] theorem storeCalls_nil : storeCalls [] = [] := rfl

theorem storeCalls_cons (e : Event) (es : List Event) :
    storeCalls (e :: es) = e.storeCall?.toList ++ storeCalls es := by
  cases hcall : e.storeCall? <;> simp [storeCalls, hcall]

/-- The calls of one turn after another. -/
theorem storeCalls_bind {α β : Type} (u : Turn α) (next : α → Desk → Turn β) :
    storeCalls (u.bind next).told = storeCalls u.told ∨
      ∃ x, u.result = .ok x ∧
        storeCalls (u.bind next).told = storeCalls u.told ++ storeCalls (next x u.desk).told := by
  cases hr : u.result with
  | error e => exact .inl (by rw [Turn.bind_of_error hr])
  | ok x => exact .inr ⟨x, rfl, by rw [Turn.bind_of_ok hr, storeCalls_append]⟩

namespace Patcher

theorem restoreTurn_calls (p : Patcher) (f : Path) (content : Bytes) (d : Desk) :
    storeCalls (p.restoreTurn f content d).told = [] ∨
      storeCalls (p.restoreTurn f content d).told = [(.discard, f)] := by
  by_cases hdir : d.source = some .dir <;> cases hs : p.store.strikes .discard f <;>
    simp [restoreTurn, Turn.bind, writeTurn, BackupStore.discardTurn, hdir, hs, storeCalls_cons,
      Event.storeCall?]

theorem declareTurn_calls (p : Patcher) (f : Path) (content : Bytes) (d : Desk) :
    storeCalls (p.declareTurn f content d).told = [(.store content, f)] ∨
      storeCalls (p.declareTurn f content d).told = [(.store content, f), (.discard, f)] := by
  by_cases hdir : d.source = some .dir <;> cases hs : p.store.strikes .store f <;>
    cases hc : p.store.strikes .commit f <;> cases hd : p.store.strikes .discard f <;>
    simp [declareTurn, Turn.bind, writeTurn, BackupStore.storeTurn, BackupStore.discardTurn, hdir,
      hs, hc, hd, storeCalls_cons, Event.storeCall?]

/-- A backup is removed where one was found and sources may be changed, or it is not. -/
theorem reconcileTurn_calls (p : Patcher) (f : Path) (d : Desk) (backup : Option Bytes) :
    storeCalls (p.reconcileTurn f d backup).told = [] ∨
      p.mode = .apply ∧ storeCalls (p.reconcileTurn f d backup).told = [(.discard, f)] := by
  cases backup with
  | none => exact .inl rfl
  | some saved =>
    cases hm : p.mode with
    | check =>
      left
      simp [reconcileTurn, Turn.bind, hm, storeCalls_cons, Event.storeCall?]
    | apply =>
      have hcalls : storeCalls (p.reconcileTurn f d (some saved)).told =
          storeCalls (p.restoreTurn f saved d).told := by
        cases hr : (p.restoreTurn f saved d).result <;>
          simp [reconcileTurn, Turn.bind, hm, hr, storeCalls_cons, Event.storeCall?]
      rw [hcalls]
      exact (p.restoreTurn_calls f saved d).imp_right fun h => ⟨rfl, h⟩

/-- A backup is made where a declaration is missing and sources may be changed; then it is removed,
or it is not. -/
theorem settleTurn_calls (p : Patcher) (f : Path) (content : Bytes) (d : Desk) :
    storeCalls (p.settleTurn f content d).told = [] ∨
      p.mode = .apply ∧ (storeCalls (p.settleTurn f content d).told = [(.store content, f)] ∨
        storeCalls (p.settleTurn f content d).told = [(.store content, f), (.discard, f)]) := by
  cases hc : isCompliant content with
  | true => exact .inl (by simp [settleTurn, hc, storeCalls_cons, Event.storeCall?])
  | false =>
    cases hm : p.mode with
    | check => exact .inl (by simp [settleTurn, hc, hm])
    | apply =>
      have hcalls : storeCalls (p.settleTurn f content d).told =
          storeCalls (p.declareTurn f content d).told := by
        cases hr : (p.declareTurn f content d).result <;> simp [settleTurn, Turn.bind, hc, hm, hr]
      rw [hcalls]
      exact .inr ⟨rfl, p.declareTurn_calls f content d⟩

/-- **The calls of a turn** make a word. Where sources are only inspected, their backups are looked
for and nothing else. -/
theorem turn_calls (p : Patcher) (f : Path) (d : Desk) :
    ∃ word : List StoreCall, storeCalls (p.turn f d).told = word.map (·, f) ∧
      word.map StoreCall.name ∈ callWords ∧ (p.mode = .check → word = [.pending]) := by
  have hnot : p.mode = .apply → ¬ p.mode = .check := by
    intro hm hm'
    simp [hm] at hm'
  have hpending : storeCalls (p.store.pendingTurn f d).told = [(.pending, f)] := rfl
  unfold turn
  rcases storeCalls_bind (p.store.pendingTurn f d) _ with h | ⟨backup, -, h⟩ <;> rw [h, hpending]
  · exact ⟨[.pending], rfl, by decide, fun _ => rfl⟩
  have hreconcile := p.reconcileTurn_calls f (p.store.pendingTurn f d).desk backup
  generalize p.reconcileTurn f (p.store.pendingTurn f d).desk backup = u at hreconcile ⊢
  rcases storeCalls_bind u _ with h | ⟨content, -, h⟩ <;> rw [h]
  · rcases hreconcile with h₁ | ⟨hm, h₁⟩ <;> rw [h₁]
    · exact ⟨[.pending], rfl, by decide, fun _ => rfl⟩
    · exact ⟨[.pending, .discard], rfl, by decide, fun hm' => absurd hm' (hnot hm)⟩
  have hsettle := p.settleTurn_calls f content u.desk
  have hend : storeCalls ((p.settleTurn f content u.desk).bind fun action d =>
      (⟨.ok ⟨f, action, backup.isSome⟩, d, []⟩ : Turn Outcome)).told =
      storeCalls (p.settleTurn f content u.desk).told := by
    rcases storeCalls_bind (p.settleTurn f content u.desk) _ with h | ⟨action, -, h⟩ <;> rw [h]
    simp
  rw [hend]
  rcases hreconcile with h₁ | ⟨hm, h₁⟩ <;> rcases hsettle with h₂ | ⟨hm', h₂ | h₂⟩ <;> rw [h₁, h₂]
  · exact ⟨[.pending], rfl, by decide, fun _ => rfl⟩
  · exact ⟨[.pending, .store content], rfl, by simp [callWords, StoreCall.name],
      fun hcheck => absurd hcheck (hnot hm')⟩
  · exact ⟨[.pending, .store content, .discard], rfl, by simp [callWords, StoreCall.name],
      fun hcheck => absurd hcheck (hnot hm')⟩
  · exact ⟨[.pending, .discard], rfl, by decide, fun hcheck => absurd hcheck (hnot hm)⟩
  · exact ⟨[.pending, .discard, .store content], rfl, by simp [callWords, StoreCall.name],
      fun hcheck => absurd hcheck (hnot hm)⟩
  · exact ⟨[.pending, .discard, .store content, .discard], rfl,
      by simp [callWords, StoreCall.name], fun hcheck => absurd hcheck (hnot hm)⟩

end Patcher

end

/-! ## From the desk to the tree -/

/-- **A call on the store of backups is in order** in a tree: what it needs stands in the source and
under the path of its backup. -/
def Event.InOrder (c : Config) (cwd : Location) (t : Tree) : Event → Prop
  | .storeCalled (.store content) f => t.read cwd f = .ok content ∧ isCompliant content = false ∧
    t.inspect cwd ((BackupStore.ofConfig c).backupPath f) = .error .notFound
  | .storeCalled .discard f =>
    ∃ saved, t.read cwd ((BackupStore.ofConfig c).backupPath f) = .ok saved ∧
      (t.read cwd f = .ok saved ∨ t.read cwd f = .ok (insertDeclaration c.declaration saved))
  | _ => True

/-- **Something holds of each event** in the tree in which it is told: the one to which the
operations before it lead. -/
def Tree.Sees (t : Tree) (cwd : Location) (Q : Tree → Event → Prop) (told : List Event) : Prop :=
  ∀ pre e post, told = pre ++ e :: post →
    ∃ t₁, t.performAll cwd (operations pre) = .ok t₁ ∧ Q t₁ e

namespace Tree

variable {t t₁ : Tree} {cwd k l : Location} {Q : Tree → Event → Prop} {told told' : List Event}
  {b : BackupStore} {f path : Path} {n : Bytes} {op : Operation}

theorem sees_nil : t.Sees cwd Q [] := by
  intro pre e post h
  simp at h

theorem Sees.append (h : t.Sees cwd Q told) (ht : t.performAll cwd (operations told) = .ok t₁)
    (h' : t₁.Sees cwd Q told') : t.Sees cwd Q (told ++ told') := by
  intro pre e post heq
  rcases List.append_eq_append_iff.1 heq with ⟨more, rfl, hmore⟩ | ⟨more, rfl, hmore⟩
  · obtain ⟨t₂, ht₂, hQ⟩ := h' more e post hmore
    refine ⟨t₂, ?_, hQ⟩
    rw [operations_append, performAll_append, ht]
    exact ht₂
  · cases more with
    | nil =>
      obtain ⟨t₂, ht₂, hQ⟩ := h' [] e post (by simpa using hmore.symm)
      obtain rfl := Except.ok.inj ht₂
      exact ⟨t₁, by simpa using ht, hQ⟩
    | cons e' more =>
      obtain ⟨rfl, rfl⟩ := List.cons.inj hmore
      exact h pre e more rfl

/-- Something holds of an event and then of those after it. -/
theorem Sees.cons {e : Event} (hQ : Q t e) (he : t.performAll cwd (operations [e]) = .ok t₁)
    (h : t₁.Sees cwd Q told) : t.Sees cwd Q (e :: told) := by
  show t.Sees cwd Q ([e] ++ told)
  refine Sees.append ?_ he h
  intro pre e' post heq
  obtain ⟨rfl, heq⟩ | ⟨more, rfl, heq⟩ := List.cons_eq_append_iff.1 heq
  · obtain ⟨rfl, -⟩ := List.cons.inj heq
    exact ⟨t, rfl, hQ⟩
  · simp at heq

theorem sees_of_operations_nil (ho : operations told = []) (hQ : ∀ e ∈ told, Q t e) :
    t.Sees cwd Q told := by
  rintro pre e post rfl
  rw [operations_append, List.append_eq_nil_iff] at ho
  exact ⟨t, by rw [ho.1]; rfl, hQ e (by simp)⟩

/-- An operation that is carried out at a place leaves there what it is to leave. -/
theorem Names.perform (h : t.Names cwd op.path l) (hop : b.Handles f op)
    (hp : t.perform cwd op = .ok t₁) : t.Updates t₁ l op.left ∧ t.get? l ≠ some .dir := by
  cases op with
  | write path content =>
    replace h : t.Names cwd path l := h
    have hdir : t.get? l ≠ some .dir := by
      intro hdir
      simp [Tree.perform, h.write_dir hdir] at hp
    obtain ⟨t', ht', hu⟩ := h.write hdir content
    obtain rfl := Except.ok.inj (ht'.symm.trans hp)
    exact ⟨hu, hdir⟩
  | remove path =>
    replace h : t.Names cwd path l := h
    simp only [Tree.perform, Tree.remove, h.locate .remove, bind, Except.bind] at hp
    cases hg : t.get? l with
    | none => simp [hg] at hp
    | some e =>
      cases e with
      | dir => simp [hg] at hp
      | link q => exact absurd hg (h.direct q)
      | file content =>
        obtain rfl : t.erase l = t₁ := by simpa [hg] using hp
        exact ⟨updates_erase (by simp [hg]), by simp⟩
  | makeDirectory path =>
    replace h : t.Names cwd path l := h
    rw [Tree.perform, h.makeDirectory_eq] at hp
    cases hg : t.get? l with
    | some e => simp [hg] at hp
    | none =>
      obtain rfl : t.put l .dir = t₁ := by simpa [hg] using hp
      exact ⟨updates_put (h.writable (by simp [hg])) .dir, by simp⟩
  | removeAll path => exact hop.elim

/-- **An operation on a source or on its backup** changes the desk of the source as it says, and
brings in no link. -/
theorem perform_handled (hb : b.Proper) (hu : b.Usable f n) (ht : t.LinkFree)
    (he : t.Enters cwd f k n) (hop : b.Handles f op) (hp : t.perform cwd op = .ok t₁) :
    t₁.LinkFree ∧ t₁.Enters cwd f k n ∧
      t₁.deskAt b.suffix k n = (t.deskAt b.suffix k n).after f op := by
  obtain ⟨hsource, hslot⟩ := he.names hb ht hu
  have hapart : k ++ [n] ≠ k ++ [n ++ b.suffix] := names_apart hb
  obtain ⟨m, hpath, hm⟩ : ∃ m, t.Names cwd op.path m ∧
      ((op.path = f ∧ m = k ++ [n]) ∨ (op.path ≠ f ∧ m = k ++ [n ++ b.suffix])) := by
    have hpaths : op.path = f ∨ op.path = b.backupPath f := by
      cases op with
      | removeAll path => exact hop.elim
      | _ => exact hop
    rcases hpaths with h | h
    · exact ⟨_, h ▸ hsource, .inl ⟨h, rfl⟩⟩
    · exact ⟨_, h ▸ hslot, .inr ⟨h ▸ f.append_ne hb.ne_nil, rfl⟩⟩
  obtain ⟨hupdates, hdir⟩ := hpath.perform hop hp
  refine ⟨?_, he.mono (hupdates.extends hdir (ht m)), ?_⟩
  · intro m' q hq
    by_cases hm' : m' = m
    · rw [hm', hupdates.same] at hq
      cases op <;> simp [Operation.left] at hq
    · exact ht m' q (hupdates.other hm' ▸ hq)
  · unfold deskAt Desk.after
    rcases hm with ⟨h, rfl⟩ | ⟨h, rfl⟩
    · rw [if_pos h, hupdates.same, hupdates.other hapart.symm]
    · rw [if_neg h, hupdates.same, hupdates.other hapart]

end Tree

/-- **What is played on a desk is seen in the tree**: where the events are those of a session, every
call is in order in the tree in which it is made. -/
theorem Desk.Plays.sees {c : Config} {faults : List Fault} {f : Path} {d d' : Desk}
    {es : List Event} {t t' : Tree} {cwd k : Location} {n : Bytes}
    (h : Desk.Plays (.ofConfig c faults) c.declaration f d es d') (hc : c.Valid)
    (hu : (BackupStore.ofConfig c faults).Usable f n) (ht : t.LinkFree)
    (he : t.Enters cwd f k n) (hd : t.deskAt c.suffix k n = d)
    (hp : t.performAll cwd (operations es) = .ok t') : t.Sees cwd (Event.InOrder c cwd) es := by
  have hb := hc.proper faults
  induction h generalizing t with
  | nil => exact Tree.sees_nil
  | @call d d' call es hcall _ ih =>
    refine .cons ?_ rfl (ih ht he hd hp)
    obtain ⟨hsource, hslot⟩ := he.names hb ht hu
    subst hd
    cases call with
    | pending => trivial
    | store content =>
      obtain ⟨hsrc, hcompliant, hnone⟩ := hcall
      exact ⟨hsource.read.trans (congrArg Tree.contentOf hsrc), hcompliant,
        hslot.inspect_none hnone⟩
    | discard =>
      obtain ⟨saved, hbackup, hsrc⟩ := hcall
      refine ⟨saved, hslot.read.trans (congrArg Tree.contentOf hbackup), ?_⟩
      exact hsrc.imp (fun hsrc => hsource.read.trans (congrArg Tree.contentOf hsrc))
        fun hsrc => hsource.read.trans (congrArg Tree.contentOf hsrc)
  | @change d d' op es hop _ ih =>
    obtain ⟨t₁, hfirst, hrest⟩ := Tree.performAll_cons_eq_ok.1 hp
    obtain ⟨ht₁, he₁, hd₁⟩ := Tree.perform_handled hb hu ht he hop hfirst
    exact .cons trivial (Tree.performAll_cons_eq_ok.2 ⟨t₁, hfirst, rfl⟩)
      (ih ht₁ he₁ (hd₁.trans (congrArg (·.after f op) hd)) hrest)
  | @other d d' e es hop hcall _ ih =>
    have hoperations : ∀ es, operations (e :: es) = operations es := fun es =>
      List.filterMap_cons_none hop
    refine .cons ?_ (by rw [hoperations]; rfl) (ih ht he hd (by rwa [hoperations] at hp))
    cases e with
    | storeCalled call target => simp [Event.storeCall?] at hcall
    | _ => trivial

/-! ## The calls of a pass -/

section

variable {p : Pass} {s s' : Session} {t : Tree} {cwd d : Location} {f root : Path} {n : Bytes}

theorem Quiet.sees {es : List Event} (h : Quiet es) (t : Tree) (c : Config) (cwd cwd' : Location) :
    t.Sees cwd (Event.InOrder c cwd') es := by
  refine Tree.sees_of_operations_nil h.operations fun e he => ?_
  have hcall := (h e he).2
  cases e with
  | storeCalled call target => simp [Event.storeCall?] at hcall
  | _ => trivial

/-- **The calls of a treatment** make a word, and each of them is in order in the tree in which it
is made. -/
theorem Steady.patch_calls (h : Steady t cwd s) (hc : p.config.Valid) (he : t.Enters cwd f d n) :
    ∃ told, ∃ word : List StoreCall,
      s.Becomes told ((p.patcher.patch f).runIn s).2 ∧
      s.tree.Sees s.cwd (Event.InOrder p.config s.cwd) told ∧
      storeCalls told = word.map (·, f) ∧ word.map StoreCall.name ∈ callWords ∧
      (p.mode = .check → word = [.pending]) := by
  have hb : p.patcher.store.Proper := hc.proper p.faults
  have he' := h.enters he
  by_cases hu : p.patcher.store.Usable f n
  · generalize hd : s.tree.deskAt p.patcher.store.suffix d n = desk
    obtain ⟨t', hr, -⟩ := comesTo_patch (p := p.patcher) (d := desk)
      (he'.seated hb h.linkFree hu) (hd ▸ ⟨rfl, rfl⟩)
    obtain ⟨own, hown, -⟩ := p.patcher.patch_opens f s
    have htold : .storeCalled .pending f :: own = (p.patcher.turn f desk).told := by
      have hevents := hown.events
      rw [hr] at hevents
      exact (List.append_cancel_left hevents).symm
    rw [htold] at hown
    obtain ⟨word, hcalls, hword, hcheck⟩ := p.patcher.turn_calls f desk
    exact ⟨_, word, hown, (p.patcher.plays_turn hb f desk).sees hc hu h.linkFree he' hd hown.tree,
      hcalls, hword, hcheck⟩
  · obtain ⟨hne, hl⟩ := he'.locate_of_not_usable hb hu
    rw [runIn_patch_of_refused (Tree.read_of_locate_error (hl .use)) hne]
    refine ⟨_, [.pending], s.becomes_tell rfl, ?_, rfl, by decide, fun _ => rfl⟩
    exact Tree.sees_of_operations_nil rfl fun e he => by simp_all [Event.InOrder]

/-- **The calls of a pass that treats some sources**: one word for each, and each call in order. -/
structure Pass.Calls (p : Pass) (s : Session) (files : List Path) (s' : Session) : Prop where
  /-- The tree has its directories, and no links. -/
  steady : Steady s.tree s.cwd s'
  /-- The calls are told. -/
  told : ∃ told, s.Becomes told s' ∧ s.tree.Sees s.cwd (Event.InOrder p.config s.cwd) told ∧
    ∃ word : Path → List StoreCall,
      storeCalls told = files.flatMap (fun f => (word f).map (·, f)) ∧
      ∀ f ∈ files, (word f).map StoreCall.name ∈ callWords ∧
        (p.mode = .check → word f = [.pending])

theorem Pass.Calls.tell {files : List Path} {es : List Event} (h : p.Calls s files s')
    (hes : Quiet es) : p.Calls s files (s'.tell es) := by
  obtain ⟨hsteady, told, hs, hsees, word, hcalls, hword⟩ := h
  refine ⟨hsteady.tell es, told ++ es, hs.trans (s'.becomes_tell hes.operations),
    hsees.append hs.tree (hes.sees _ _ _ _), word, ?_, hword⟩
  rw [storeCalls_append, hes.storeCalls, List.append_nil, hcalls]

/-- One source more. -/
theorem Pass.Calls.concat {files : List Path} (h : p.Calls s files s') (hc : p.config.Valid)
    (he : s.tree.Enters s.cwd f d n) (hf : f ∉ files) :
    p.Calls s (files ++ [f]) ((p.patcher.patch f).runIn s').2 := by
  obtain ⟨hsteady, told, hs, hsees, word, hcalls, hword⟩ := h
  obtain ⟨own, w, hs', hsees', hcalls', hw, hcheck⟩ := hsteady.patch_calls hc he
  rw [hsteady.cwd_eq] at hsees'
  refine ⟨(hsteady.patch (hc.proper p.faults) he).1, told ++ own, hs.trans hs',
    hsees.append hs.tree hsees', Function.update word f w, ?_, fun g hg => ?_⟩
  · have hsame : files.flatMap (fun g => (Function.update word f w g).map (·, g)) =
        files.flatMap fun g => (word g).map (·, g) := by
      refine List.flatMap_congr fun g hg => ?_
      rw [Function.update_of_ne (ne_of_mem_of_not_mem hg hf)]
    rw [storeCalls_append, hcalls, hcalls', List.flatMap_append, hsame]
    simp
  · rcases List.mem_append.1 hg with hg | hg
    · rw [Function.update_of_ne (ne_of_mem_of_not_mem hg hf)]
      exact hword g hg
    · obtain rfl := List.mem_singleton.1 hg
      rw [Function.update_self]
      exact ⟨hw, hcheck⟩

theorem Pass.calls_run (hc : p.config.Valid) (ht : s.tree.LinkFree) (root : Path) :
    p.Calls s (p.treated root s) ((p.run root).runIn s).2 := by
  refine Pass.run_treated (I := fun files s' => p.Calls s files s')
    (fun _ _ _ hes hI => hI.tell hes) ?_
    ⟨.refl ht, [], .refl s, Tree.sees_nil, fun _ => [], rfl, by simp⟩
  intro done f rest s₁ hfiles hI
  have hf : f ∈ (s.tree.survey s.cwd p.config root).sources := by simp [hfiles]
  obtain ⟨d, n, hat⟩ := Tree.exists_sourceAt hf
  refine hI.concat hc hat.enters ?_
  -- None is found twice, so the source has not been treated before.
  have hnodup := Tree.nodup_sources s.tree s.cwd p.config root
  rw [hfiles, List.nodup_append] at hnodup
  exact fun hmem => hnodup.2.2 f hmem f (by simp) rfl

/-- **The calls on the store of backups** of a whole pass. Where sources may be changed, they are
one word of calls for each source that was treated, in the order of the sources. Whenever a backup
is made, its source holds exactly this content, which lacks a declaration, and has no backup;
whenever one is removed, its source holds its content or this content with the declaration, so the
only copy of a content is never dropped. Where sources are only inspected, a backup is looked for
once for each source, and there are no other calls. -/
theorem calls_in_order (hc : p.config.Valid) (ht : s.tree.LinkFree) (root : Path) :
    p.treated root s <+: (s.tree.survey s.cwd p.config root).sources ∧
    ∃ told, s.Becomes told ((p.run root).runIn s).2 ∧
      s.tree.Sees s.cwd (Event.InOrder p.config s.cwd) told ∧
      (p.mode = .apply → ∃ word : Path → List StoreCall,
        storeCalls told = (p.treated root s).flatMap (fun f => (word f).map (·, f)) ∧
        ∀ f ∈ p.treated root s, (word f).map StoreCall.name ∈ callWords) ∧
      (p.mode = .check → storeCalls told = (p.treated root s).map (StoreCall.pending, ·)) := by
  refine ⟨p.treated_prefix root s, ?_⟩
  obtain ⟨-, told, hs, hsees, word, hcalls, hword⟩ := Pass.calls_run hc ht root
  refine ⟨told, hs, hsees, fun _ => ⟨word, hcalls, fun f hf => (hword f hf).1⟩, fun hm => ?_⟩
  rw [hcalls, List.map_eq_flatMap]
  refine List.flatMap_congr fun f hf => ?_
  rw [(hword f hf).2 hm]
  rfl

/-- A source that is restored from its backup, and of which a backup is made again before its
declaration cannot be written: the word breaks off with the new backup in place. -/
theorem calls_in_order_of_commit_fault :
    let t := (Tree.lone (Bytes.ofString "a.py") (Bytes.ofString "x = 1")).put
      [Bytes.ofString "a.py.checker"] (.file (Bytes.ofString "y = 2"))
    let p : Pass := ⟨{}, .apply, [⟨.commit, Path.ofString "/a.py"⟩]⟩
    let s : Session := ⟨t, [], []⟩
    (p.config.Valid ∧ t.LinkFree) ∧
    ∃ told, s.Becomes told ((p.run (Path.ofString "/")).runIn s).2 ∧
      t.Sees [] (Event.InOrder p.config []) told ∧
      storeCalls told = [(.pending, Path.ofString "/a.py"), (.discard, Path.ofString "/a.py"),
        (.store (Bytes.ofString "y = 2"), Path.ofString "/a.py")] := by
  intro t p s
  have ht : t.LinkFree := (Tree.linkFree_lone _ _).put (by simp)
  refine ⟨⟨Config.valid_default, ht⟩, ?_⟩
  obtain ⟨-, told, hs, hsees, -⟩ :=
    calls_in_order (p := p) (s := s) Config.valid_default ht (Path.ofString "/")
  refine ⟨told, hs, hsees, ?_⟩
  have hlog : storeCalls ((p.run (Path.ofString "/")).runIn s).2.events =
      [(.pending, Path.ofString "/a.py"), (.discard, Path.ofString "/a.py"),
        (.store (Bytes.ofString "y = 2"), Path.ofString "/a.py")] := by decide +kernel
  rwa [hs.events] at hlog

end

end SourceCoding
