import Mathlib.Logic.Relation
import SourceCoding.Proofs.Linkless
import SourceCoding.Proofs.Ways

/-!
# Excluded directories

A pass does not look for sources in directories with the excluded name. But a source may be a link,
and so may what stands under the path of its backup, and what is written through a link is written
where the link leads. So what is beneath an excluded directory is safe from a pass in all but two
ways: a file there is rewritten where a source is a link that leads to it, and a file comes into
being there where the path of a backup is a link that leads to a free place. Nothing is removed.

Patching a source is taken apart into moves, of which each is allowed in the tree in which it is
made only: a backup is made where nothing can be read under its path, and what is removed leads to
no directory.

## Main definitions

* `Tree.Shielded`: a location is beneath an excluded directory
* `Site`, `Site.Move`: what patching a source does to a tree, one operation at a time
* `Act.Moves`: an action consists of moves
* `Tree.ByLink`: a source, or the path of its backup, is a link to a location
* `Tree.Spared`: what is beneath excluded directories has changed through links only

## Main results

* `Patcher.moves_patch`: patching consists of moves
* `Spared.move`: a move changes what is beneath an excluded directory through links only
* `excluded_by_link`: what a pass changes beneath an excluded directory
-/

namespace SourceCoding

/-! ## Beneath excluded directories -/

namespace Tree

variable {t : Tree} {cwd l m d : Location} {c : Config} {root f : Path}

/-- **A location is beneath an excluded directory**: below the root there is a directory, and no
link to one, that has the excluded name, and the location is beneath it. -/
def Shielded (t : Tree) (cwd : Location) (c : Config) (root : Path) (m : Location) : Prop :=
  ∃ l names rest, t.locate cwd .use root = .ok l ∧ names.getLast? = some c.excludedName ∧
    t.get? (l ++ names) = some .dir ∧ rest ≠ [] ∧ m = l ++ names ++ rest

/-- **A source does not stand beneath an excluded directory**, nor does anything beside it. -/
theorem exists_place (hf : f ∈ (t.survey cwd c root).sources) :
    f.isAbsolute ∧ ∃ d n, t.SourceAt cwd c f d n ∧ ∀ n', ¬ t.Shielded cwd c root (d ++ [n']) := by
  obtain ⟨habs, l, hr, ⟨rfl, -, b, hb⟩ | ⟨hl, hbelow⟩⟩ := mem_sources_survey hf
  · obtain ⟨d, n, hat⟩ := exists_sourceAt hf
    refine ⟨habs, d, n, hat, ?_⟩
    rintro n' ⟨l', names, rest, hr', hlast, hdir, -⟩
    obtain rfl := Except.ok.inj (hr.symm.trans hr')
    have hne : names ≠ [] := by
      rintro rfl
      simp at hlast
    have hl : t.get? l = some .dir := get?_of_append hne (by rw [hdir]; simp)
    simp [hb] at hl
  · obtain ⟨names, e, hmem, hnotice⟩ := mem_sources_walkBelow hbelow
    obtain ⟨init, n, rfl, hat⟩ := sourceAt_of_notice habs hr hl hmem hnotice
    obtain ⟨rfl, hexcluded, -⟩ := notice_eq_source.1 hnotice
    refine ⟨Path.isAbsolute_descendant habs _, l ++ init, n, hat, ?_⟩
    rintro n' ⟨l', names, rest, hr', hlast, -, hne, heq⟩
    obtain rfl := Except.ok.inj (hr.symm.trans hr')
    obtain ⟨rest, x, rfl⟩ := (List.eq_nil_or_concat rest).resolve_left hne
    have hsame : init ++ [n'] = names ++ rest ++ [x] := by simpa using heq
    obtain ⟨rfl, -⟩ := List.append_inj' hsame rfl
    refine hexcluded ?_
    rw [List.dropLast_concat]
    exact List.mem_append_left _ (List.mem_of_getLast? hlast)

end Tree

theorem Path.isAbsolute_append {f : Path} (h : f.isAbsolute) (suffix : Bytes) :
    (f.append suffix).isAbsolute := by
  rcases f with ⟨_ | ⟨x, xs⟩⟩
  · simp [Path.isAbsolute] at h
  · exact h

/-! ## Files found and written through links -/

namespace Tree

variable {t t' : Tree} {cwd l : Location} {p q : Path} {content : Bytes}

theorem get?_start_of_isAbsolute (t : Tree) (cwd : Location) (h : p.isAbsolute) :
    t.get? (start cwd p) = some .dir := by
  rw [start_of_isAbsolute h]
  exact t.get?_nil

/-- A file that is written leaves all directories and links, and brings in none. -/
theorem extends_of_write (habs : p.isAbsolute) (h : t.write cwd p content = .ok t') :
    t'.Extends t ∧ t.Extends t' := by
  obtain ⟨w, hw, hdir, rfl⟩ := write_eq_ok h
  have hlink := ne_link_of_locate_write hw (t.get?_start_of_isAbsolute cwd habs)
  exact ⟨put_extends hdir hlink content, extends_put t w content⟩

/-- What stops stops still when a file is written. -/
theorem Stops.write (hstops : t.Stops cwd q) (habs : p.isAbsolute)
    (h : t.write cwd p content = .ok t') : t'.Stops cwd q := by
  obtain ⟨w, hw, hdir, rfl⟩ := write_eq_ok h
  exact hstops.put hdir (ne_link_of_locate_write hw (t.get?_start_of_isAbsolute cwd habs)) content

/-- What is written through leads to no directory. -/
theorem stops_of_write (habs : p.isAbsolute) (h : t.write cwd p content = .ok t') :
    t.Stops cwd p := by
  obtain ⟨w, hw, hdir, -⟩ := write_eq_ok h
  exact ⟨w, locate_use hw (ne_link_of_locate_write hw (t.get?_start_of_isAbsolute cwd habs)), hdir⟩

theorem stops_of_read (h : t.read cwd p = .ok content) : t.Stops cwd p := by
  cases hl : t.locate cwd .use p with
  | error e => simp [read_of_locate_error hl] at h
  | ok l =>
    rw [read_of_locate hl] at h
    exact ⟨l, hl, by simp [contentOf_eq_ok h]⟩

/-- What is written where nothing was found comes to a free place. -/
theorem get?_of_read_notFound (hl : t.locate cwd .write p = .ok l) (habs : p.isAbsolute)
    (h : t.read cwd p = .error .notFound) : t.get? l = none := by
  have hlink := ne_link_of_locate_write hl (t.get?_start_of_isAbsolute cwd habs)
  rw [read_of_locate (locate_use hl hlink)] at h
  cases hg : t.get? l with
  | none => rfl
  | some e => cases e <;> simp [hg, contentOf] at h

end Tree

/-! ## Moves -/

/-- **A source to be treated**, with the place of its last name. -/
structure Site where
  /-- Where backups are kept. -/
  store : BackupStore
  /-- The working directory. -/
  cwd : Location
  /-- The path of the source. -/
  source : Path
  /-- The directory of its last name. -/
  dir : Location
  /-- Its last name. -/
  name : Bytes
  /-- Backups are set apart from their sources. -/
  proper : store.Proper
  /-- The path starts at the root of the tree. -/
  absolute : source.isAbsolute

namespace Site

/-- The path of the backup. -/
def slot (S : Site) : Path := S.store.backupPath S.source

/-- The path of the source goes through its directory. -/
def Stands (S : Site) (t : Tree) : Prop := t.Enters S.cwd S.source S.dir S.name

/-- Nothing is found under the path of the backup. -/
def Free (S : Site) (t : Tree) : Prop := t.read S.cwd S.slot = .error .notFound

/-- **What patching a source does to a tree**, one operation at a time. -/
inductive Move (S : Site) (t t' : Tree) : Prop
  /-- The source is written. -/
  | source (content : Bytes) (h : t.write S.cwd S.source content = .ok t')
  /-- A backup is made where none is found. -/
  | save (content : Bytes) (hfree : S.Free t) (h : t.write S.cwd S.slot content = .ok t')
  /-- What stands under the path of the backup is removed, and it leads to no directory. -/
  | drop (hstops : t.Stops S.cwd S.slot) (h : t.remove S.cwd S.slot = .ok t')

variable {S : Site} {t t' : Tree}

theorem absolute_slot (S : Site) : S.slot.isAbsolute :=
  Path.isAbsolute_append S.absolute S.store.suffix

theorem Stands.slot (h : S.Stands t) :
    t.Enters S.cwd S.slot S.dir (S.name ++ S.store.suffix) :=
  h.append S.proper.slash_not_mem

/-- **A move keeps the ways to directories**, and brings in no directory and no link. -/
theorem Move.ways (h : S.Move t t') (hs : S.Stands t) : t.Ways t' ∧ t.Extends t' := by
  cases h with
  | source content h => exact (Tree.extends_of_write S.absolute h).imp_left Tree.Extends.ways
  | save content _ h => exact (Tree.extends_of_write S.absolute_slot h).imp_left Tree.Extends.ways
  | drop hstops h =>
    obtain ⟨hu, hways⟩ := hstops.removed hs.slot h
    refine ⟨hways, fun m e hm _ => ?_⟩
    rwa [hu.other] at hm
    rintro rfl
    simp [hu.same] at hm

theorem Stands.ways (hs : S.Stands t) (h : t.Ways t') : S.Stands t' :=
  h.enters (t.get?_start_of_isAbsolute S.cwd S.absolute) hs

theorem Stands.moves (hs : S.Stands t) (h : Relation.ReflTransGen S.Move t t') : S.Stands t' := by
  induction h with
  | refl => exact hs
  | tail _ hmove ih => exact ih.ways (hmove.ways ih).1

end Site

/-! ## Actions that consist of moves -/

/-- **An action consists of moves**, from trees of one kind and, if it succeeds, to trees of another
kind. -/
def Act.Moves {ε α : Type} (S : Site) (P : Tree → Prop) (a : Act ε α) (Q : α → Tree → Prop) :
    Prop :=
  ∀ s : Session, s.cwd = S.cwd → S.Stands s.tree → P s.tree →
    (a.runIn s).2.cwd = S.cwd ∧ Relation.ReflTransGen S.Move s.tree (a.runIn s).2.tree ∧
      ∀ x, (a.runIn s).1 = .ok x → Q x (a.runIn s).2.tree

section

variable {ε α β : Type} {S : Site} {P : Tree → Prop} {Q : α → Tree → Prop} {R : β → Tree → Prop}
  {a : Act ε α} {g : α → Act ε β}

theorem Act.moves_of_same (h : ∀ s, s.cwd = S.cwd → P s.tree →
    (a.runIn s).2.cwd = s.cwd ∧ (a.runIn s).2.tree = s.tree ∧
      ∀ x, (a.runIn s).1 = .ok x → Q x s.tree) : a.Moves S P Q := by
  intro s hcwd _ hP
  obtain ⟨hcwd', htree, hQ⟩ := h s hcwd hP
  rw [htree]
  exact ⟨hcwd'.trans hcwd, .refl, hQ⟩

theorem Act.moves_pure {x : α} (h : ∀ t, P t → Q x t) : (pure x : Act ε α).Moves S P Q :=
  moves_of_same fun s _ hP => ⟨rfl, rfl, fun _ hx => Except.ok.inj hx ▸ h s.tree hP⟩

theorem Act.moves_emit (e : Event) : (emit e : Act ε Unit).Moves S P fun _ => P :=
  moves_of_same fun _ _ hP => ⟨rfl, rfl, fun _ _ => hP⟩

theorem Act.moves_query {ask : Tree → Location → Except SystemError α} {failure : SystemError → ε}
    (h : ∀ t x, P t → Q x t) : (query ask failure).Moves S P Q := by
  refine moves_of_same fun s _ hP => ?_
  rw [runIn_query]
  exact ⟨rfl, rfl, fun x _ => h s.tree x hP⟩

theorem Act.moves_change {op : Operation} {failure : SystemError → ε} {Q : Tree → Prop}
    (h : ∀ t t', S.Stands t → P t → t.perform S.cwd op = .ok t' → S.Move t t' ∧ Q t') :
    (change op failure).Moves S P fun _ => Q := by
  intro s hcwd hs hP
  rw [runIn_change]
  cases ht : s.tree.perform s.cwd op with
  | error e => exact ⟨hcwd, .refl, fun x hx => nomatch hx⟩
  | ok t =>
    obtain ⟨hmove, hQ⟩ := h s.tree t hs hP (hcwd ▸ ht)
    exact ⟨hcwd, .single hmove, fun _ _ => hQ⟩

theorem Act.Moves.bind (ha : a.Moves S P Q) (hg : ∀ x, (g x).Moves S (Q x) R) :
    (a >>= g).Moves S P R := by
  intro s hcwd hs hP
  obtain ⟨hcwd₁, hmoves, hQ⟩ := ha s hcwd hs hP
  rw [runIn_bind]
  rcases hr : a.runIn s with ⟨e | x, s₁⟩ <;> rw [hr] at hcwd₁ hmoves hQ
  · exact ⟨hcwd₁, hmoves, fun x hx => nomatch hx⟩
  · obtain ⟨hcwd₂, hmoves', hR⟩ := hg x s₁ hcwd₁ (hs.moves hmoves) (hQ x rfl)
    exact ⟨hcwd₂, hmoves.trans hmoves', hR⟩

theorem Act.Moves.mono {P' : Tree → Prop} (ha : a.Moves S P Q) (hP : ∀ t, P' t → P t) :
    a.Moves S P' Q :=
  fun s hcwd hs h => ha s hcwd hs (hP s.tree h)

/-- An action that is refused under some condition. -/
theorem Act.Moves.guard {c : Prop} [Decidable c] {e : ε} {k : β → Act ε α} (ha : a.Moves S P Q) :
    (if c then (throw e : Act ε β) >>= k else a).Moves S P Q := by
  split
  · refine moves_of_same fun s _ _ => ?_
    rw [runIn_bind, runIn_throw]
    exact ⟨rfl, rfl, fun x hx => nomatch hx⟩
  · exact ha

end

/-! ## The moves of a treatment -/

section

variable {S : Site} {p : Patcher}

theorem Site.moves_pending (S : Site) :
    (S.store.pending S.source).Moves S (fun _ => True) fun backup t =>
      (backup = none → S.Free t) ∧ (backup ≠ none → t.Stops S.cwd S.slot) := by
  refine Act.moves_of_same fun s hcwd _ => ?_
  rw [runIn_pending, hcwd]
  refine ⟨hcwd, rfl, fun backup hbackup => ?_⟩
  cases hstrike : S.store.strikes .pending S.source with
  | true => simp [hstrike] at hbackup
  | false =>
    simp only [hstrike, Bool.false_eq_true, if_false] at hbackup
    cases hread : s.tree.read S.cwd (S.store.backupPath S.source) with
    | ok saved =>
      rw [hread] at hbackup
      obtain rfl := Except.ok.inj hbackup
      exact ⟨nofun, fun _ => Tree.stops_of_read hread⟩
    | error e =>
      rw [hread] at hbackup
      cases e <;> cases hbackup
      exact ⟨fun _ => hread, fun hne => absurd rfl hne⟩

theorem Site.moves_write (S : Site) (content : Bytes) :
    (writeSource S.source content).Moves S (fun t => t.Stops S.cwd S.slot)
      fun _ t => t.Stops S.cwd S.slot :=
  Act.moves_change fun _ _ _ hstops h => ⟨.source content h, hstops.write S.absolute h⟩

/-- What is free stays free for the path that leads there. -/
theorem Site.Stands.free {t t' : Tree} (hs : S.Stands t) (hs' : S.Stands t')
    (hstops : t.Stops S.cwd S.slot)
    (hnone : t'.get? (S.dir ++ [S.name ++ S.store.suffix]) = none) : S.Free t' := by
  obtain ⟨l, hl, -⟩ := hstops
  have hnames : t'.Names S.cwd S.slot (S.dir ++ [S.name ++ S.store.suffix]) :=
    ⟨(hs.slot.exists_locate hl).1, ⟨S.dir, _, rfl, hs.slot.length_le hl, hs'.slot⟩, by simp [hnone]⟩
  rw [Free, hnames.read, hnone]
  rfl

/-- Where a removal succeeds, or finds nothing, nothing is found any more. -/
theorem Site.moves_remove (S : Site) :
    (Act.attempt (Act.change (.remove S.slot) id) : Act Failure (Except SystemError Unit)).Moves S
      (fun t => t.Stops S.cwd S.slot)
      fun r t => r = .ok () ∨ r = .error .notFound → S.Free t := by
  intro s hcwd hs hstops
  rw [Act.runIn_attempt, Act.runIn_change, Tree.perform, hcwd]
  cases ht : s.tree.remove S.cwd S.slot with
  | error e =>
    refine ⟨hcwd, .refl, fun r hr => ?_⟩
    obtain rfl := Except.ok.inj hr
    rintro (h | h)
    · cases h
    · obtain rfl : e = .notFound := Except.error.inj h
      refine hs.free hs hstops ?_
      rw [hstops.remove_eq hs.slot] at ht
      cases hg : s.tree.get? (S.dir ++ [S.name ++ S.store.suffix]) with
      | none => rfl
      | some e => cases e <;> simp [hg] at ht
  | ok t =>
    obtain ⟨hu, hways⟩ := hstops.removed hs.slot ht
    exact ⟨hcwd, .single (.drop hstops ht), fun _ _ _ => hs.free (hs.ways hways) hstops hu.same⟩

theorem Site.moves_discard (S : Site) :
    (S.store.discard S.source).Moves S (fun t => t.Stops S.cwd S.slot) fun _ => S.Free := by
  refine (Act.moves_emit _).bind fun _ => .guard (S.moves_remove.bind fun r => ?_)
  split
  · exact Act.moves_pure fun _ h => h (.inl rfl)
  · exact Act.moves_pure fun _ h => h (.inr rfl)
  · exact Act.moves_of_same fun _ _ _ => ⟨rfl, rfl, fun x hx => nomatch hx⟩

theorem Site.moves_store (hcommit : S.store.strikes .commit S.source = false) (content : Bytes) :
    (S.store.store S.source content).Moves S S.Free fun _ t => t.Stops S.cwd S.slot := by
  refine (Act.moves_emit _).bind fun _ => .guard ?_
  refine (Act.moves_change (Q := fun t => t.Stops S.cwd S.slot) fun t t' hs hfree h => ?_).bind
    fun _ => ?_
  · have hstops : t.Stops S.cwd S.slot := Tree.stops_of_write S.absolute_slot h
    exact ⟨.save content hfree h, hstops.write S.absolute_slot h⟩
  · rw [hcommit]
    exact Act.moves_pure fun _ h => h

namespace Patcher

theorem moves_restore (h : S.store = p.store) (saved : Bytes) :
    (p.restore S.source saved).Moves S (fun t => t.Stops S.cwd S.slot) fun _ => S.Free :=
  (Act.moves_emit _).bind fun _ => (S.moves_write saved).bind fun _ =>
    (h ▸ S.moves_discard).bind fun _ => Act.moves_emit _

theorem moves_declare (h : S.store = p.store) (hcommit : S.store.strikes .commit S.source = false)
    (content : Bytes) :
    (p.declare S.source content).Moves S S.Free fun _ => S.Free :=
  (h ▸ Site.moves_store hcommit content).bind fun _ => (S.moves_write _).bind fun _ =>
    (h ▸ S.moves_discard).bind fun _ => Act.moves_emit _

/-- Where sources may be changed, nothing is found under the path of the backup once the content
that counts has been found. -/
theorem moves_reconcile (h : S.store = p.store) (backup : Option Bytes) :
    (p.reconcile S.source backup).Moves S
      (fun t => (backup = none → S.Free t) ∧ (backup ≠ none → t.Stops S.cwd S.slot))
      fun _ t => p.mode = .apply → S.Free t := by
  cases backup with
  | none =>
    show (readSource S.source).Moves S _ _
    exact Act.moves_query fun _ _ hbackup _ => hbackup.1 rfl
  | some saved =>
    refine (Act.moves_emit _).bind fun _ => ?_
    dsimp only
    cases p.mode with
    | apply =>
      refine Act.Moves.bind ((moves_restore h saved).mono fun _ hbackup => hbackup.2 nofun)
        fun _ => ?_
      exact Act.moves_pure fun _ hfree _ => hfree
    | check => exact (Act.moves_emit _).bind fun _ => Act.moves_pure fun _ _ hm => nomatch hm

theorem moves_settle (h : S.store = p.store) (hcommit : S.store.strikes .commit S.source = false)
    (content : Bytes) :
    (p.settle S.source content).Moves S (fun t => p.mode = .apply → S.Free t) fun _ _ => True := by
  unfold settle
  split
  · exact (Act.moves_emit _).bind fun _ => Act.moves_pure fun _ _ => trivial
  · cases p.mode with
    | check => exact Act.moves_pure fun _ _ => trivial
    | apply =>
      refine Act.Moves.bind ((moves_declare h hcommit content).mono fun _ hfree => hfree rfl)
        fun _ => ?_
      exact Act.moves_pure fun _ _ => trivial

/-- **Patching a source consists of moves.** -/
theorem moves_patch (h : S.store = p.store) (hcommit : S.store.strikes .commit S.source = false) :
    (p.patch S.source).Moves S (fun _ => True) fun _ _ => True :=
  (h ▸ S.moves_pending).bind fun backup => (moves_reconcile h backup).bind fun content =>
    (moves_settle h hcommit content).bind fun _ => Act.moves_pure fun _ _ => trivial

end Patcher

end

/-! ## What changes beneath excluded directories -/

/-- **A source, or the path of its backup, is a link to a location**: to a file or, from the path of
a backup, to a place that is free. -/
def Tree.ByLink (t : Tree) (cwd : Location) (c : Config) (root : Path) (m : Location) : Prop :=
  ∃ f ∈ (t.survey cwd c root).sources,
    ((∃ q, t.inspect cwd f = .ok (.link q)) ∧ t.Leads cwd f m) ∨
    ((∃ q, t.inspect cwd ((BackupStore.ofConfig c).backupPath f) = .ok (.link q)) ∧
      t.locate cwd .write ((BackupStore.ofConfig c).backupPath f) = .ok m ∧ t.get? m = none)

/-- **What is beneath excluded directories** has changed through links only. -/
structure Tree.Spared (t t' : Tree) (cwd : Location) (c : Config) (root : Path) : Prop where
  /-- The directories are there, and the ways to them. -/
  ways : t.Ways t'
  /-- No directory and no link has come in. -/
  back : t.Extends t'
  /-- Beneath excluded directories all is as it was, but for files to which links led. -/
  kept : ∀ m, t.Shielded cwd c root m → t'.get? m = t.get? m ∨
    (∃ b, t'.get? m = some (.file b)) ∧ t.ByLink cwd c root m

/-- **A source is to be treated** in a tree: it was found there, and its place is known. -/
structure Site.Found (S : Site) (t : Tree) (c : Config) (root : Path) : Prop where
  /-- The source was found. -/
  mem : S.source ∈ (t.survey S.cwd c root).sources
  /-- It has its place. -/
  at_place : t.SourceAt S.cwd c S.source S.dir S.name
  /-- No place in its directory is beneath an excluded one. -/
  outside : ∀ n, ¬ t.Shielded S.cwd c root (S.dir ++ [n])
  /-- The path of its backup is that of the configuration. -/
  slot : S.slot = (BackupStore.ofConfig c).backupPath S.source

namespace Tree

variable {t t₁ t' : Tree} {cwd d m : Location} {c : Config} {root p : Path} {n content : Bytes}
  {S : Site}

theorem ByLink.ne_dir (h : t.ByLink cwd c root m) :
    t.get? m ≠ some .dir ∧ ∀ q, t.get? m ≠ some (.link q) := by
  obtain ⟨f, -, ⟨-, hleads⟩ | ⟨-, -, hnone⟩⟩ := h
  · obtain ⟨b, hb⟩ := hleads.file
    simp [hb]
  · simp [hnone]

/-- **What is written beneath an excluded directory** is written through a link, which was there at
first and led there then. -/
theorem Spared.written (h : t.Spared t₁ cwd c root) (habs : p.isAbsolute)
    (he : t.Enters cwd p d n) (hout : ∀ n', ¬ t.Shielded cwd c root (d ++ [n']))
    (hw : t₁.write cwd p content = .ok t') (hm : t.Shielded cwd c root m) :
    t'.get? m = t₁.get? m ∨ (∃ b, t'.get? m = some (.file b)) ∧ t₁.locate cwd .write p = .ok m ∧
      (∃ q, t.inspect cwd p = .ok (.link q)) ∧ t.locate cwd .write p = .ok m := by
  obtain ⟨w, hl, hdir, rfl⟩ := write_eq_ok hw
  rcases t₁.get?_put_cases w (.file content) m with hsame | ⟨rfl, hfile⟩
  · exact .inl hsame
  refine .inr ⟨⟨content, hfile⟩, hl, ?_⟩
  have hd := t.get?_start_of_isAbsolute cwd habs
  have he₁ : t₁.Enters cwd p d n := h.ways.enters hd he
  have hlink := ne_link_of_locate_write hl (t₁.get?_start_of_isAbsolute cwd habs)
  -- The place of the last name is not beneath the directory, so a link stands there.
  obtain ⟨q, hq⟩ := (he₁.eq_or_link hl).resolve_left fun heq => hout n (heq ▸ hm)
  have hq₀ : t.get? (d ++ [n]) = some (.link q) := h.back _ _ hq (by simp)
  obtain ⟨ha, hr⟩ := locate_eq_ok.1 hl
  refine ⟨⟨q, he.inspect ha hq₀⟩, locate_eq_ok.2 ⟨ha, ?_⟩⟩
  obtain ⟨hdir₀, hlink₀⟩ : t.get? m ≠ some .dir ∧ ∀ q, t.get? m ≠ some (.link q) := by
    rcases h.kept m hm with hsame | ⟨-, hby⟩
    · rw [← hsame]
      exact ⟨hdir, hlink⟩
    · exact hby.ne_dir
  exact hr.write_mono h.back hdir₀ hlink₀

/-- **A move changes what is beneath an excluded directory** through links only. -/
theorem Spared.move (h : t.Spared t₁ S.cwd c root) (hS : S.Found t c root)
    (hmove : S.Move t₁ t') : t.Spared t' S.cwd c root := by
  have hstands : S.Stands t := hS.at_place.enters
  obtain ⟨hways, hback⟩ := hmove.ways (hstands.ways h.ways)
  refine ⟨h.ways.trans hways, h.back.trans hback, fun m hm => ?_⟩
  have hkept : t'.get? m = t₁.get? m → t'.get? m = t.get? m ∨
      (∃ b, t'.get? m = some (.file b)) ∧ t.ByLink S.cwd c root m := by
    intro hsame
    rw [hsame]
    exact h.kept m hm
  cases hmove with
  | source content hw =>
    rcases h.written S.absolute hstands hS.outside hw hm with hsame | ⟨hfile, -, hq, hl⟩
    · exact hkept hsame
    · obtain ⟨l, hleads⟩ := hS.at_place.exists_leads (locate_eq_ok.1 hl).1
      obtain rfl := Except.ok.inj (hleads.locate_write.symm.trans hl)
      exact .inr ⟨hfile, S.source, hS.mem, .inl ⟨hq, hleads⟩⟩
  | save content hfree hw =>
    rcases h.written S.absolute_slot hstands.slot hS.outside hw hm with
      hsame | ⟨hfile, hl₁, hq, hl⟩
    · exact hkept hsame
    · have hnone := get?_of_read_notFound hl₁ S.absolute_slot hfree
      have hnone₀ : t.get? m = none := by
        rcases h.kept m hm with hsame | ⟨⟨b, hb⟩, -⟩
        · rw [← hsame, hnone]
        · simp [hnone] at hb
      rw [hS.slot] at hq hl
      exact .inr ⟨hfile, S.source, hS.mem, .inr ⟨hq, hl, hnone₀⟩⟩
  | drop hstops hr =>
    obtain ⟨hu, -⟩ := hstops.removed (hstands.ways h.ways).slot hr
    refine hkept (hu.other ?_)
    rintro rfl
    exact hS.outside _ hm

theorem Spared.refl (t : Tree) (cwd : Location) (c : Config) (root : Path) :
    t.Spared t cwd c root :=
  ⟨.refl t, .refl t, fun _ _ => .inl rfl⟩

theorem Spared.moves (h : t.Spared t₁ S.cwd c root) (hS : S.Found t c root)
    (hmoves : Relation.ReflTransGen S.Move t₁ t') : t.Spared t' S.cwd c root := by
  induction hmoves with
  | refl => exact h
  | tail _ hmove ih => exact ih.move hS hmove

end Tree

section

variable {p : Pass} {s : Session} {root : Path} {m : Location}

/-- **What a pass changes beneath an excluded directory** are files, and only through links: where a
source is a link that leads to a file there, the file has another content; and where the path of the
backup of a source is a link to a free place there, a file comes into being. All else is as it was,
and nothing is removed. -/
theorem excluded_by_link (hc : p.config.Valid)
    (hcommit : ∀ f, p.patcher.store.strikes .commit f = false)
    (hm : s.tree.Shielded s.cwd p.config root m) :
    let s' := ((p.run root).runIn s).2
    s'.tree.get? m = s.tree.get? m ∨
      (∃ b, s'.tree.get? m = some (.file b)) ∧ s.tree.ByLink s.cwd p.config root m := by
  -- The invariant: what has changed so far has changed through links.
  have hrun := Pass.run_kept (p := p) (s := s) root
    (I := fun s₁ => s₁.cwd = s.cwd ∧ s.tree.Spared s₁.tree s.cwd p.config root)
    (fun _ _ hI => hI) ?_ ⟨rfl, .refl ..⟩
  · exact hrun.2.kept m hm
  · rintro f hf s₁ ⟨hcwd, hspared⟩
    obtain ⟨habs, d, n, hat, hout⟩ := Tree.exists_place hf
    let S : Site := ⟨p.patcher.store, s.cwd, f, d, n, hc.proper p.faults, habs⟩
    have hfound : S.Found s.tree p.config root := ⟨hf, hat, hout, rfl⟩
    have hstands : S.Stands s₁.tree := Site.Stands.ways hat.enters hspared.ways
    obtain ⟨hcwd', hmoves, -⟩ :=
      Patcher.moves_patch (S := S) (p := p.patcher) rfl (hcommit f) s₁ hcwd hstands trivial
    exact ⟨hcwd', hspared.moves hfound hmoves⟩

/-- A backup is made through a link to a free place beneath an excluded directory. -/
theorem excluded_by_link_of_backup :
    let t := ((Tree.lone (Bytes.ofString "a.py") (Bytes.ofString "x = 1\n")).put
      [Bytes.ofString "migrations"] .dir).put
      [Bytes.ofString "a.py.checker"] (.link (Path.ofString "migrations/a.py"))
    let m := [Bytes.ofString "migrations", Bytes.ofString "a.py"]
    t.Shielded [] {} (Path.ofString "/") m ∧
      (∃ b, ((Pass.run ⟨{}, .apply, []⟩ (Path.ofString "/")).runIn ⟨t, [], []⟩).2.tree.get? m =
        some (.file b)) ∧
      t.ByLink [] {} (Path.ofString "/") m := by
  intro t m
  have hm : t.Shielded [] {} (Path.ofString "/") m :=
    ⟨[], [Bytes.ofString "migrations"], [Bytes.ofString "a.py"], by decide +kernel⟩
  have hchanged :
      ((Pass.run ⟨{}, .apply, []⟩ (Path.ofString "/")).runIn ⟨t, [], []⟩).2.tree.get? m ≠
        t.get? m := by decide +kernel
  exact ⟨hm, (excluded_by_link (p := ⟨{}, .apply, []⟩) (s := ⟨t, [], []⟩) Config.valid_default
    (fun _ => rfl) hm).resolve_left hchanged⟩

/-- **What is beneath an excluded directory does change**: a file comes into being where the path
of a backup is a link to a free place, and one is rewritten where a source is a link that leads to
it. -/
theorem excluded_changed_through_links :
    let t := ((((Tree.lone (Bytes.ofString "a.py") (Bytes.ofString "x = 1\n")).put
      [Bytes.ofString "migrations"] .dir).put
      [Bytes.ofString "a.py.checker"] (.link (Path.ofString "migrations/a.py"))).put
      [Bytes.ofString "migrations", Bytes.ofString "b.py"] (.file (Bytes.ofString "x = 1\n"))).put
      [Bytes.ofString "b.py"] (.link (Path.ofString "migrations/b.py"))
    let t' := ((Pass.run ⟨{}, .apply, []⟩ (Path.ofString "/")).runIn ⟨t, [], []⟩).2.tree
    let a := [Bytes.ofString "migrations", Bytes.ofString "a.py"]
    let b := [Bytes.ofString "migrations", Bytes.ofString "b.py"]
    ({} : Config).Valid ∧
      (t.Shielded [] {} (Path.ofString "/") a ∧ t.get? a = none ∧
        t'.get? a = some (.file (Bytes.ofString "x = 1\n"))) ∧
      t.Shielded [] {} (Path.ofString "/") b ∧ t.get? b = some (.file (Bytes.ofString "x = 1\n")) ∧
        t'.get? b = some (.file (Bytes.ofString "# -*- coding: UTF-8 -*-\nx = 1\n")) := by
  intro t t' a b
  have ha : t.Shielded [] {} (Path.ofString "/") a :=
    ⟨[], [Bytes.ofString "migrations"], [Bytes.ofString "a.py"], by decide +kernel⟩
  have hb : t.Shielded [] {} (Path.ofString "/") b :=
    ⟨[], [Bytes.ofString "migrations"], [Bytes.ofString "b.py"], by decide +kernel⟩
  exact ⟨Config.valid_default, ⟨ha, by decide +kernel⟩, hb, by decide +kernel⟩

end

end SourceCoding
