import SourceCoding.Proofs.Sources

/-!
# Ways through a tree with links

A way that leads to a directory goes through directories and links that lead to directories. So it
is not lost when a file is written, and not when a link is removed that leads to no directory,
although ways that end at this link are lost.

## Main definitions

* `Tree.Ways`: what leads to a directory of one tree leads to it in another
* `Tree.Stops`: a path leads to no directory

## Main results

* `Resolves.exists_front`: the way to a directory leads through directories
* `ways_of_removed`: ways are not lost with a link that leads to no directory
* `write_eq_ok`, `Stops.removed`: what is written and what is removed
-/

namespace SourceCoding

open SourceCoding.Path (Step)

namespace Tree

variable {t t' t'' : Tree} {aim : Aim} {b b' : Nat} {cwd here l k m w d : Location}
  {steps front rest : List Step} {n content : Bytes} {p q : Path}

/-! ## Ways that go on -/

/-- More links may be in reserve. -/
theorem Resolves.more (h : t.Resolves aim b here steps l) (hb : b ≤ b') :
    t.Resolves aim b' here steps l := by
  induction h generalizing b' with
  | here => exact .here
  | stay _ ih => exact .stay (ih hb)
  | slash _ ih => exact .slash (ih hb)
  | up _ ih => exact .up (ih hb)
  | free hn hg => exact .free hn hg
  | file hn hg => exact .file hn hg
  | enter hw hn hg _ ih => exact .enter hw hn hg (ih hb)
  | take hn hg ht => exact .take hn hg ht
  | link hw hn hg ht hs _ ih =>
    obtain ⟨b', rfl⟩ := Nat.exists_eq_add_of_le' (Nat.le_trans (Nat.le_add_left 1 _) hb)
    exact .link hw hn hg ht hs (ih (Nat.le_of_succ_le_succ hb))

/-- Steps lead to one location, however many links are in reserve. -/
theorem Resolves.unique {l' : Location} (h : t.Resolves aim b here steps l)
    (h' : t.Resolves aim b' here steps l') : l = l' := by
  have hl := (h.more (Nat.le_max_left b b')).follow
  have hl' := (h'.more (Nat.le_max_right b b')).follow
  exact Except.ok.inj (hl.symm.trans hl')

/-- **The way to a directory leads through directories.** -/
theorem Resolves.exists_front (h : t.Resolves .use b here steps l) (hs : steps = front ++ rest)
    (hd : t.get? here = some .dir) (hl : t.get? l = some .dir) :
    ∃ y, t.Resolves .use b here front y ∧ t.get? y = some .dir := by
  -- Induction on the way: the front is at its end at once, or it begins with the first step.
  induction h generalizing front with
  | here =>
    obtain ⟨rfl, -⟩ := List.append_eq_nil_iff.1 hs.symm
    exact ⟨_, .here, hd⟩
  | stay _ ih =>
    rcases front with _ | ⟨s, front⟩
    · exact ⟨_, .here, hd⟩
    · obtain ⟨rfl, hrest⟩ := List.cons.inj hs
      obtain ⟨y, hy, hdir⟩ := ih hrest hd hl
      exact ⟨y, .stay hy, hdir⟩
  | slash _ ih =>
    rcases front with _ | ⟨s, front⟩
    · exact ⟨_, .here, hd⟩
    · obtain ⟨rfl, hrest⟩ := List.cons.inj hs
      obtain ⟨y, hy, hdir⟩ := ih hrest hd hl
      exact ⟨y, .slash hy, hdir⟩
  | up _ ih =>
    rcases front with _ | ⟨s, front⟩
    · exact ⟨_, .here, hd⟩
    · obtain ⟨rfl, hrest⟩ := List.cons.inj hs
      obtain ⟨y, hy, hdir⟩ := ih hrest (get?_dropLast (by simp [hd])) hl
      exact ⟨y, .up hy, hdir⟩
  | free _ hg => simp [hg] at hl
  | file _ hg => simp [hg] at hl
  | take _ _ ht => simp [Aim.takesLink] at ht
  | enter _ hn hg _ ih =>
    rcases front with _ | ⟨s, front⟩
    · exact ⟨_, .here, hd⟩
    · obtain ⟨rfl, hrest⟩ := List.cons.inj hs
      obtain ⟨y, hy, hdir⟩ := ih hrest hg hl
      exact ⟨y, .enter (by simp) hn hg hy, hdir⟩
  | link _ hn hg _ _ _ ih =>
    rcases front with _ | ⟨s, front⟩
    · exact ⟨_, .here, hd⟩
    · obtain ⟨rfl, rfl⟩ := List.cons.inj hs
      obtain ⟨y, hy, hdir⟩ := ih (List.append_assoc ..).symm (get?_start hd _) hl
      exact ⟨y, .link (by simp) hn hg (by simp [Aim.takesLink]) (by simp) hy, hdir⟩

/-- **What leads to a directory** of the first tree leads to it in the second. -/
structure Ways (t t' : Tree) : Prop where
  /-- The directories are there. -/
  dirs : ∀ l, t.get? l = some .dir → t'.get? l = some .dir
  /-- The ways to them are there. -/
  leads : ∀ b here steps l, t.get? here = some .dir → t.get? l = some .dir →
    t.Resolves .use b here steps l → t'.Resolves .use b here steps l

theorem Ways.refl (t : Tree) : t.Ways t := ⟨fun _ h => h, fun _ _ _ _ _ _ h => h⟩

theorem Ways.trans (h : t.Ways t') (h' : t'.Ways t'') : t.Ways t'' :=
  ⟨fun l hl => h'.dirs l (h.dirs l hl), fun b here steps l hd hl hr =>
    h'.leads b here steps l (h.dirs here hd) (h.dirs l hl) (h.leads b here steps l hd hl hr)⟩

theorem Extends.ways (h : t'.Extends t) : t.Ways t' :=
  ⟨fun _ hl => h.dir hl, fun _ _ _ _ _ hl hr => hr.mono h ⟨_, hl, by simp⟩⟩

/-- A path goes on to the directory of its last name. -/
theorem Ways.enters (h : t.Ways t') (hd : t.get? (start cwd p) = some .dir)
    (he : t.Enters cwd p d n) : t'.Enters cwd p d n := by
  obtain ⟨hdir, front, hs, hf⟩ := he
  exact ⟨h.dirs d hdir, front, hs, h.leads _ _ _ _ hd hdir hf⟩

/-- **Ways are not lost with an entry** that is no directory and, if it is a link, leads to none. -/
theorem ways_of_removed (hu : t.Updates t' (d ++ [n]) none) (hk : t.get? (d ++ [n]) ≠ some .dir)
    (hlink : ∀ q, t.get? (d ++ [n]) = some (.link q) → ∀ b y,
      t.Resolves .use b (start d q) q.steps y → t.get? y ≠ some .dir) : t.Ways t' := by
  have hkeep : ∀ m, t.get? m = some .dir → t'.get? m = some .dir := by
    intro m hm
    rw [hu.other, hm]
    rintro rfl
    exact hk hm
  refine ⟨hkeep, fun b here steps l hd hl hr => ?_⟩
  induction hr with
  | here => exact .here
  | stay _ ih => exact .stay (ih hd hl)
  | slash _ ih => exact .slash (ih hd hl)
  | up _ ih => exact .up (ih (get?_dropLast (by simp [hd])) hl)
  | free _ hg => simp [hg] at hl
  | file _ hg => simp [hg] at hl
  | take _ _ ht => simp [Aim.takesLink] at ht
  | enter hw hn hg _ ih => exact .enter hw hn (hkeep _ hg) (ih hg hl)
  | @link _ here n' target _ _ hw hn hg ht hs hr ih =>
    refine .link hw hn ?_ ht hs (ih (get?_start hd _) hl)
    rw [hu.other, hg]
    -- The way goes on from where the link leads, so the link is not the one that is removed.
    intro heq
    obtain ⟨rfl, hname⟩ := List.append_inj' heq rfl
    obtain rfl := List.singleton_inj.1 hname
    obtain ⟨y, hy, hdir⟩ := hr.exists_front rfl (get?_start hd _) hl
    exact hlink target hg _ y hy hdir

/-! ## Paths that lead to no directory -/

/-- **A path leads to no directory**: to a file or to a place that is free. -/
def Stops (t : Tree) (cwd : Location) (p : Path) : Prop :=
  ∃ l, t.locate cwd .use p = .ok l ∧ t.get? l ≠ some .dir

/-- A path that ends in a name is resolved from the directory of this name. -/
theorem Enters.exists_locate (he : t.Enters cwd p d n) (hl : t.locate cwd aim p = .ok l) :
    refusal? p = none ∧ ∃ b, t.Resolves aim b d [.name n] l := by
  obtain ⟨ha, hr⟩ := locate_eq_ok.1 hl
  obtain ⟨hd, front, hs, hf⟩ := he
  obtain ⟨b, hb⟩ := hf.follow_append hd
  refine ⟨ha, b, resolves_of_follow ?_⟩
  rw [← hb aim _ (by simp) (by simp), ← hs]
  exact hr.follow

theorem Enters.length_le (he : t.Enters cwd p d n) (hl : t.locate cwd aim p = .ok l) :
    n.length ≤ nameLimit := by
  obtain ⟨-, b, hr⟩ := he.exists_locate hl
  cases hr <;> assumption

/-- A link through which a path leads to no directory leads to none. -/
theorem Stops.get?_ne_dir (h : t.Stops cwd p) (he : t.Enters cwd p d n)
    (hq : t.get? (d ++ [n]) = some (.link q)) {y : Location}
    (hr : t.Resolves .use b (start d q) q.steps y) : t.get? y ≠ some .dir := by
  obtain ⟨l, hl, hdir⟩ := h
  obtain ⟨-, b', hr'⟩ := he.exists_locate hl
  cases hr' with
  | free _ hg => simp [hq] at hg
  | file _ hg => simp [hq] at hg
  | enter _ _ hg => simp [hq] at hg
  | take _ _ ht => simp [Aim.takesLink] at ht
  | link _ _ hg _ _ hr' =>
    obtain rfl : q = _ := by simpa [hq] using hg
    rw [List.append_nil] at hr'
    obtain rfl := hr.unique hr'
    exact hdir

/-- A path names the place of its last name unless a link stands there. -/
theorem Enters.eq_or_link (he : t.Enters cwd p d n) (hl : t.locate cwd aim p = .ok l) :
    l = d ++ [n] ∨ ∃ q, t.get? (d ++ [n]) = some (.link q) := by
  obtain ⟨-, b, hr⟩ := he.exists_locate hl
  cases hr with
  | free => exact .inl rfl
  | file => exact .inl rfl
  | enter _ _ _ hr =>
    cases hr
    exact .inl rfl
  | take => exact .inl rfl
  | link _ _ hg => exact .inr ⟨_, hg⟩

/-! ## Writing through links -/

theorem write_eq_ok (h : t.write cwd p content = .ok t') :
    ∃ w, t.locate cwd .write p = .ok w ∧ t.get? w ≠ some .dir ∧ t' = t.put w (.file content) := by
  unfold Tree.write at h
  cases hl : t.locate cwd .write p with
  | error e => simp [hl, bind, Except.bind] at h
  | ok w =>
    by_cases hdir : t.get? w = some .dir
    · simp [hl, hdir, bind, Except.bind] at h
    · exact ⟨w, rfl, hdir, by simpa [hl, hdir, bind, Except.bind] using h.symm⟩

theorem get?_put_cases (t : Tree) (w : Location) (e : Entry) (m : Location) :
    (t.put w e).get? m = t.get? m ∨ m = w ∧ (t.put w e).get? m = some e := by
  by_cases hw : t.Writable w
  · rw [get?_put hw]
    split_ifs with hm
    · exact .inr ⟨hm, rfl⟩
    · exact .inl rfl
  · exact .inl (by rw [put_of_not_writable hw])

/-- What is reached for writing is no link. -/
theorem ne_link_of_locate_write (h : t.locate cwd .write p = .ok w)
    (hd : t.get? (start cwd p) = some .dir) (q : Path) : t.get? w ≠ some (.link q) :=
  (resolves_of_locate h).ne_link_of_not_takes rfl hd q

section

variable (hdir : t.get? w ≠ some .dir) (hlink : ∀ q, t.get? w ≠ some (.link q))

include hdir hlink

theorem put_extends (content : Bytes) : (t.put w (.file content)).Extends t := by
  intro m e hm he
  rcases t.get?_put_cases w (.file content) m with hg | ⟨rfl, -⟩
  · rw [hg, hm]
  · cases e with
    | file c => exact absurd rfl (he c)
    | dir => exact absurd hm hdir
    | link q => exact absurd hm (hlink q)

/-- What is reached stays reached when a file is written. -/
theorem Resolves.put (h : t.Resolves aim b here steps l) (content : Bytes) :
    (t.put w (.file content)).Resolves aim b here steps l := by
  have he := put_extends hdir hlink content
  induction h with
  | here => exact .here
  | stay _ ih => exact .stay ih
  | slash _ ih => exact .slash ih
  | up _ ih => exact .up ih
  | @free _ here n hn hg =>
    rcases t.get?_put_cases w (.file content) (here ++ [n]) with hg' | ⟨-, hg'⟩
    · exact .free hn (hg'.trans hg)
    · exact .file hn hg'
  | @file _ here n _ hn hg =>
    rcases t.get?_put_cases w (.file content) (here ++ [n]) with hg' | ⟨-, hg'⟩
    · exact .file hn (hg'.trans hg)
    · exact .file hn hg'
  | enter hw hn hg _ ih => exact .enter hw hn (he.dir hg) ih
  | take hn hg ht => exact .take hn (he _ _ hg (by simp)) ht
  | link hw hn hg ht hs _ ih => exact .link hw hn (he _ _ hg (by simp)) ht hs ih

theorem Stops.put (h : t.Stops cwd p) (content : Bytes) :
    (t.put w (.file content)).Stops cwd p := by
  obtain ⟨l, hl, hne⟩ := h
  obtain ⟨ha, hr⟩ := locate_eq_ok.1 hl
  refine ⟨l, locate_eq_ok.2 ⟨ha, hr.put hdir hlink content⟩, ?_⟩
  rcases t.get?_put_cases w (.file content) l with hg | ⟨-, hg⟩ <;> simp [hg, hne]

end

theorem extends_put (t : Tree) (w : Location) (content : Bytes) :
    t.Extends (t.put w (.file content)) := by
  intro m e hm he
  rcases t.get?_put_cases w (.file content) m with hg | ⟨-, hg⟩
  · rw [← hg, hm]
  · exact absurd (Option.some.inj (hm.symm.trans hg)) (he content)

/-- **What is reached for writing** is reached so in a tree with more directories and links, as long
as no directory and no link stands there. -/
theorem Resolves.write_mono (h : t.Resolves .write b here steps l) (he : t'.Extends t)
    (hdir : t'.get? l ≠ some .dir) (hlink : ∀ q, t'.get? l ≠ some (.link q)) :
    t'.Resolves .write b here steps l := by
  have hlast : ∀ {b : Nat} {here : Location} {n : Bytes}, n.length ≤ nameLimit →
      t'.get? (here ++ [n]) ≠ some .dir → (∀ q, t'.get? (here ++ [n]) ≠ some (.link q)) →
      t'.Resolves .write b here [.name n] (here ++ [n]) := by
    intro b here n hn hdir hlink
    cases hg : t'.get? (here ++ [n]) with
    | none => exact .free hn hg
    | some e =>
      cases e with
      | file c => exact .file hn hg
      | dir => exact absurd hg hdir
      | link q => exact absurd hg (hlink q)
  induction h with
  | here => exact .here
  | stay _ ih => exact .stay (ih hdir hlink)
  | slash _ ih => exact .slash (ih hdir hlink)
  | up _ ih => exact .up (ih hdir hlink)
  | free hn _ => exact hlast hn hdir hlink
  | file hn _ => exact hlast hn hdir hlink
  | enter hw hn hg _ ih => exact .enter hw hn (he.dir hg) (ih hdir hlink)
  | take _ _ ht => simp [Aim.takesLink] at ht
  | link hw hn hg ht hs _ ih =>
    exact .link hw hn (he _ _ hg (by simp)) ht hs (ih hdir hlink)

/-! ## Removing what stands there -/

/-- **What is removed** stands in the place of the last name, even if it is a link. -/
theorem Enters.remove_eq (he : t.Enters cwd p d n) (ha : refusal? p = none)
    (hn : n.length ≤ nameLimit) :
    t.remove cwd p =
      match t.get? (d ++ [n]) with
      | none => .error .notFound
      | some .dir => .error .isDirectory
      | some _ => .ok (t.erase (d ++ [n])) := by
  have hl : t.locate cwd .remove p = .ok (d ++ [n]) := by
    rw [locate, ha]
    exact he.follow_of_takes hn rfl
  cases hg : t.get? (d ++ [n]) with
  | none => simp [Tree.remove, hl, hg, bind, Except.bind]
  | some e => cases e <;> simp [Tree.remove, hl, hg, bind, Except.bind]

/-- A path that stops is removed by its last name. -/
theorem Stops.remove_eq (h : t.Stops cwd p) (he : t.Enters cwd p d n) :
    t.remove cwd p =
      match t.get? (d ++ [n]) with
      | none => .error .notFound
      | some .dir => .error .isDirectory
      | some _ => .ok (t.erase (d ++ [n])) := by
  obtain ⟨l, hl, -⟩ := h
  exact he.remove_eq (he.exists_locate hl).1 (he.length_le hl)

/-- **A removal of what leads to no directory** changes one place, and no way to a directory. -/
theorem Stops.removed (h : t.Stops cwd p) (he : t.Enters cwd p d n)
    (hr : t.remove cwd p = .ok t') : t.Updates t' (d ++ [n]) none ∧ t.Ways t' := by
  rw [h.remove_eq he] at hr
  cases hg : t.get? (d ++ [n]) with
  | none => simp [hg] at hr
  | some e =>
    have hdir : t.get? (d ++ [n]) ≠ some .dir := by
      intro hdir
      simp [hdir] at hr
    obtain rfl : t.erase (d ++ [n]) = t' := by cases e <;> simp_all
    have hu := updates_erase hdir
    exact ⟨hu, ways_of_removed hu hdir fun q hq b y hy => h.get?_ne_dir he hq hy⟩

end Tree

end SourceCoding
