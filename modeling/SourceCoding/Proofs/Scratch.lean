import SourceCoding.Proofs.Account
import SourceCoding.Proofs.Ways

/-!
# Scratch directories

A scratch directory is made for some work and removed with all that is in it. What is done under
names that lead on from it, with no link on the way, changes nothing outside the directory; so once
it is removed the tree is as it was before. A name that no entry can have leads nowhere, and what is
done under it is refused.

## Main definitions

* `Tree.Makeable`: a path names a place where a directory can be made
* `Tree.Confined`: all that has changed is within a new directory
* `Path.Within`: a path goes on by certain steps from another one

## Main results

* `Makeable.confined`, `Confined.perform`, `Confined.removeAll`: the directory is made, used and
  removed
-/

namespace SourceCoding

open SourceCoding.Path (Step)

/-! ## A path that goes on from another one -/

namespace Path

variable {scratch p : Path} {n suffix : Bytes} {x : Step} {rest : List Step} {names : Location}

/-- **A path goes on by certain steps from another one**; a slash at the end of that one does not
count. -/
structure Within (scratch p : Path) (rest : List Step) : Prop where
  /-- The steps are those of the other path and the further ones. -/
  steps : p.steps = scratch.steps.filter (· ≠ .slash) ++ rest
  /-- Both paths start in one place. -/
  absolute : p.isAbsolute = scratch.isAbsolute

theorem isAbsolute_child_eq (p : Path) (hslash : Bytes.slash ∉ n) :
    (p.child n).isAbsolute = p.isAbsolute := by
  rcases p with ⟨_ | ⟨b, bs⟩⟩
  · cases n with
    | nil => rfl
    | cons a n => simpa [child, isAbsolute] using fun h => hslash (by simp [h])
  · unfold child
    split <;> rfl

theorem join_of_not_mem (p : Path) (hslash : Bytes.slash ∉ n) : p.join ⟨n⟩ = p.child n := by
  have habs : (Path.mk n).isAbsolute = false := by
    cases n with
    | nil => rfl
    | cons a n => simpa [isAbsolute] using fun h => hslash (by simp [h])
  rw [join, habs]
  rfl

theorem within_join (scratch : Path) (h : Step.ofSegment? n = some x) (hslash : Bytes.slash ∉ n) :
    scratch.Within (scratch.join ⟨n⟩) [x] := by
  rw [join_of_not_mem scratch hslash]
  exact ⟨steps_child_of_segment h hslash, isAbsolute_child_eq scratch hslash⟩

/-- A path that goes on from another one by no slash has no slash at its end. -/
theorem Within.filter_steps (hp : scratch.Within p rest) (hrest : .slash ∉ rest) :
    p.steps.filter (· ≠ .slash) = p.steps := by
  have hkept : rest.filter (· ≠ .slash) = rest :=
    List.filter_eq_self.2 fun y hy => by simpa using ne_of_mem_of_not_mem hy hrest
  rw [hp.steps, List.filter_append, List.filter_filter, hkept]
  simp

/-- A path that goes on from another one can go on further. -/
theorem Within.join (hp : scratch.Within p rest) (hrest : .slash ∉ rest)
    (h : Step.ofSegment? n = some x) (hslash : Bytes.slash ∉ n) :
    scratch.Within (p.join ⟨n⟩) (rest ++ [x]) := by
  obtain ⟨hsteps, habs⟩ := within_join p h hslash
  exact ⟨by rw [hsteps, hp.filter_steps hrest, hp.steps, List.append_assoc],
    habs.trans hp.absolute⟩

/-- A suffix becomes part of the last name. -/
theorem Within.append (hp : scratch.Within p (rest ++ [.name n])) (hslash : Bytes.slash ∉ suffix) :
    scratch.Within (p.append suffix) (rest ++ [.name (n ++ suffix)]) := by
  obtain ⟨hsteps, habs⟩ := hp
  rw [← List.append_assoc] at hsteps
  refine ⟨by rw [steps_append hsteps hslash, List.append_assoc], ?_⟩
  rw [← habs]
  rcases p with ⟨_ | ⟨b, bs⟩⟩
  · simp [Path.steps, segmentsOf, Step.ofSegment?] at hsteps
  · rfl

end Path

namespace Tree

variable {t t' u u' : Tree} {cwd d l m here : Location} {n : Bytes} {p q scratch : Path} {aim : Aim}
  {b : Nat} {steps : List Step} {names : Location}

/-! ## A directory made -/

/-- A path that leads to a free place, and has no slash at its end, ends in the name of it. -/
theorem Resolves.exists_last_of_free (h : t.Resolves .inspect b here steps l)
    (hd : t.get? here = some .dir) (hs : steps.getLast? ≠ some .slash) (hl : t.get? l = none) :
    ∃ front d n, steps = front ++ [.name n] ∧ n.length ≤ nameLimit ∧ l = d ++ [n] ∧
      t.Resolves .use b here front d ∧ t.get? d = some .dir := by
  have hrest : ∀ {x : Step} {rest : List Step}, (x :: rest).getLast? ≠ some .slash →
      rest.getLast? ≠ some .slash := by
    intro x rest hs hr
    simp [List.getLast?_cons, hr] at hs
  induction h with
  | here => simp [hd] at hl
  | stay _ ih =>
    obtain ⟨front, d, n, rfl, hn, rfl, hf, hd'⟩ := ih hd (hrest hs) hl
    exact ⟨.stay :: front, d, n, rfl, hn, rfl, .stay hf, hd'⟩
  | slash _ ih =>
    obtain ⟨front, d, n, rfl, hn, rfl, hf, hd'⟩ := ih hd (hrest hs) hl
    exact ⟨.slash :: front, d, n, rfl, hn, rfl, .slash hf, hd'⟩
  | up _ ih =>
    obtain ⟨front, d, n, rfl, hn, rfl, hf, hd'⟩ :=
      ih (get?_dropLast (by simp [hd])) (hrest hs) hl
    exact ⟨.up :: front, d, n, rfl, hn, rfl, .up hf, hd'⟩
  | @free _ here n hn _ => exact ⟨[], here, n, rfl, hn, rfl, .here, hd⟩
  | file _ hg => simp [hg] at hl
  | take _ hg => simp [hg] at hl
  | @enter _ _ m _ _ _ hm hg _ ih =>
    obtain ⟨front, d, n, rfl, hn, rfl, hf, hd'⟩ := ih hg (hrest hs) hl
    exact ⟨.name m :: front, d, n, rfl, hn, rfl, .enter (by simp) hm hg hf, hd'⟩
  | @link _ here m target rest _ _ hm hg ht _ _ ih =>
    -- A link is not followed at the end of the path, so something comes after it.
    rcases List.eq_nil_or_concat rest with rfl | ⟨rest, x, rfl⟩
    · exact absurd ⟨rfl, rfl⟩ ht
    rw [List.concat_eq_append] at ih hs ⊢
    obtain ⟨front, d, n, hsteps, hn, rfl, hf, hd'⟩ :=
      ih (get?_start hd _) (by simpa [List.getLast?_cons] using hs) hl
    rw [← List.append_assoc] at hsteps
    obtain ⟨rfl, hx⟩ := List.append_inj' hsteps rfl
    obtain rfl := List.singleton_inj.1 hx
    exact ⟨.name m :: rest, d, n, rfl, hn, rfl,
      .link (by simp) hm hg (by simp [Aim.takesLink]) (by simp) hf, hd'⟩

/-- **A path names a place where a directory can be made.** -/
structure Makeable (t : Tree) (cwd : Location) (p : Path) (d : Location) (n : Bytes) : Prop where
  /-- The path is not refused as such. -/
  accepted : refusal? p = none
  /-- The name is not too long. -/
  length : n.length ≤ nameLimit
  /-- The directory above is there. -/
  dir : t.get? d = some .dir
  /-- Nothing stands at the place. -/
  free : t.get? (d ++ [n]) = none
  /-- The steps go through the directory above to the name. -/
  last : ∃ front, p.steps.filter (· ≠ .slash) = front ++ [.name n] ∧
    t.Resolves .use linkLimit (start cwd p) front d

/-- **All that has changed is within a new directory**, and no link is there. -/
structure Confined (t : Tree) (l : Location) (u : Tree) : Prop where
  /-- Outside nothing has changed. -/
  outside : ∀ m, ¬ l <+: m → u.get? m = t.get? m
  /-- The directory is there. -/
  dir : u.get? l = some .dir
  /-- It has no links. -/
  linkless : ∀ s q, u.get? (l ++ s) ≠ some (.link q)

/-- **A directory that is made** is made where nothing was. -/
theorem makeDirectory_eq_ok (hcwd : t.get? cwd = some .dir)
    (h : t.makeDirectory cwd p = .ok t') :
    ∃ d n, t.Makeable cwd p d n ∧ t' = t.put (d ++ [n]) .dir := by
  unfold Tree.makeDirectory at h
  cases ha : refusal? p with
  | some e => simp [ha, bind, Except.bind] at h
  | none =>
    cases hf : t.follow .inspect linkLimit (start cwd p) (p.steps.filter (· ≠ .slash)) with
    | error e => simp only [ha, hf, bind, Except.bind] at h; cases h
    | ok l =>
      simp only [ha, hf, bind, Except.bind] at h
      cases hl : t.get? l with
      | some e => simp [hl] at h
      | none =>
        have hlast : (p.steps.filter (· ≠ .slash)).getLast? ≠ some .slash := by
          intro hs
          simpa using (List.mem_filter.1 (List.mem_of_getLast? hs)).2
        obtain ⟨front, d, n, hsteps, hn, rfl, hfront, hd⟩ :=
          (resolves_iff.1 hf).exists_last_of_free (get?_start hcwd p) hlast hl
        refine ⟨d, n, ⟨ha, hn, hd, hl, front, hsteps, hfront⟩, ?_⟩
        simpa [hl] using h.symm

theorem Makeable.writable (h : t.Makeable cwd p d n) : t.Writable (d ++ [n]) := by
  obtain ⟨ha, hn, hd, hfree, front, hsteps, -⟩ := h
  have hmem : .name n ∈ p.steps.filter (· ≠ .slash) := by
    rw [hsteps]
    simp
  exact ⟨⟨n, by simp, isName_of_mem_steps (List.mem_filter.1 hmem).1 ha hn⟩, by simpa using hd,
    by simp [hfree]⟩

theorem Makeable.get?_within (h : t.Makeable cwd p d n) (s : Location) :
    t.get? (d ++ [n] ++ s) = none := by
  rcases eq_or_ne s [] with rfl | hs
  · simpa using h.free
  · exact get?_beneath (by simp [h.free]) hs

/-- **A new directory** is all that has changed, and it is empty. -/
theorem Makeable.confined (h : t.Makeable cwd p d n) :
    t.Confined (d ++ [n]) (t.put (d ++ [n]) .dir) := by
  have hu := updates_put h.writable .dir
  refine ⟨fun m hm => hu.other ?_, hu.same, fun s q => ?_⟩
  · rintro rfl
    exact hm (List.prefix_refl _)
  · rcases eq_or_ne s [] with rfl | hs
    · simp [hu.same]
    · rw [hu.other (by simpa using hs), h.get?_within]
      simp

/-! ## What is done in the directory -/

theorem Confined.extends (h : t.Confined (d ++ [n]) u) (hv : t.Makeable cwd p d n) :
    u.Extends t := by
  intro m e hm _
  rw [h.outside, hm]
  rintro ⟨s, rfl⟩
  rw [hv.get?_within] at hm
  cases hm

/-- The steps of a path that goes on from the new directory are taken there. -/
theorem Confined.exists_follow (h : t.Confined (d ++ [n]) u) (hv : t.Makeable cwd scratch d n)
    {rest : List Step} (hp : scratch.Within p rest) (hrest : rest ≠ [.slash]) (aim : Aim) :
    ∃ b, u.follow aim linkLimit (start cwd p) p.steps = u.follow aim b (d ++ [n]) rest := by
  obtain ⟨front, hsteps, hfront⟩ := hv.last
  obtain ⟨b, hb⟩ := (hfront.mono (h.extends hv) ⟨_, hv.dir, by simp⟩).follow_append
    ((h.extends hv).dir hv.dir)
  have hstart : start cwd p = start cwd scratch := by rw [start, hp.absolute, start]
  refine ⟨b, ?_⟩
  rw [hp.steps, hsteps, List.append_assoc, hstart, hb aim _ (by simp) (by simp),
    List.singleton_append, follow_name, if_neg (by simp [hrest]), if_neg (Nat.not_lt.2 hv.length),
    h.dir]

/-- Where there are no links names lead to the place that has these names. -/
theorem follow_names (h : ∀ s q, u.get? (l ++ s) ≠ some (.link q))
    (hm : u.follow aim b l (names.map .name) = .ok m) : m = l ++ names := by
  induction names generalizing l with
  | nil => simpa using hm.symm
  | cons n names ih =>
    rw [List.map_cons, follow_name, if_neg (by cases names <;> simp)] at hm
    by_cases hn : nameLimit < n.length
    · simp [hn] at hm
    rw [if_neg hn] at hm
    cases hg : u.get? (l ++ [n]) with
    | none =>
      cases names with
      | nil => simpa [hg] using hm.symm
      | cons n' names => simp [hg] at hm
    | some e =>
      cases e with
      | dir =>
        rw [List.append_cons]
        exact ih (fun s q => by simpa using h (n :: s) q) (by simpa only [hg] using hm)
      | file c =>
        cases names with
        | nil => simpa [hg] using hm.symm
        | cons n' names => simp [hg] at hm
      | link q => exact absurd hg (h [n] q)

theorem Confined.locate (h : t.Confined (d ++ [n]) u) (hv : t.Makeable cwd scratch d n)
    (hp : scratch.Within p (names.map .name)) (hm : u.locate cwd aim p = .ok m) :
    m = d ++ [n] ++ names := by
  obtain ⟨b, hb⟩ := h.exists_follow hv hp (by cases names <;> simp) aim
  have hfollow : u.follow aim b (d ++ [n]) (names.map .name) = .ok m := by
    rw [← hb]
    exact (locate_eq_ok.1 hm).2.follow
  exact follow_names h.linkless hfollow

/-- What changes beneath a new directory changes within it, unless a link is made. -/
theorem Confined.update (h : t.Confined l u) (hne : names ≠ [])
    (hu : ∀ m, u'.get? m = u.get? m ∨ l ++ names <+: m ∧ ∀ q, u'.get? m ≠ some (.link q)) :
    t.Confined l u' := by
  refine ⟨fun m hm => ?_, ?_, fun s q => ?_⟩
  · rcases hu m with hm' | ⟨hpre, -⟩
    · rw [hm', h.outside m hm]
    · exact absurd ((List.prefix_append l names).trans hpre) hm
  · rcases hu l with hl | ⟨hpre, -⟩
    · rw [hl, h.dir]
    · have hlen := hpre.length_le
      have hpos := List.length_pos_of_ne_nil hne
      rw [List.length_append] at hlen
      omega
  · rcases hu (l ++ s) with hs | ⟨-, hq⟩
    · rw [hs]
      exact h.linkless s q
    · exact hq q

theorem Confined.put (h : t.Confined l u) (hne : names ≠ []) {e : Entry}
    (he : ∀ q, e ≠ .link q) : t.Confined l (u.put (l ++ names) e) := by
  refine h.update hne fun m => ?_
  rcases u.get?_put_cases (l ++ names) e m with hm | ⟨rfl, hm⟩
  · exact .inl hm
  · exact .inr ⟨List.prefix_refl _, fun q hq => he q (Option.some.inj (hm.symm.trans hq))⟩

theorem Confined.erase (h : t.Confined l u) (hne : names ≠ []) :
    t.Confined l (u.erase (l ++ names)) := by
  refine h.update hne fun m => ?_
  rcases eq_or_ne m [] with rfl | hm
  · exact .inl rfl
  · rw [get?_erase u _ hm]
    by_cases hpre : l ++ names <+: m
    · exact .inr ⟨hpre, by simp [hpre]⟩
    · exact .inl (by simp [hpre])

/-- **An operation under a path that goes on from the new directory** keeps what has changed within
it. -/
theorem Confined.perform {op : Operation} (h : t.Confined (d ++ [n]) u)
    (hv : t.Makeable cwd scratch d n) (names : Location)
    (hp : scratch.Within op.path (names.map .name)) (hne : names ≠ [])
    (hop : u.perform cwd op = .ok u') : t.Confined (d ++ [n]) u' := by
  cases op with
  | write p content =>
    obtain ⟨w, hw, -, rfl⟩ := write_eq_ok hop
    obtain rfl := h.locate hv hp hw
    exact h.put hne (by simp)
  | remove p =>
    simp only [Tree.perform, Tree.remove, bind, Except.bind] at hop
    cases hl : u.locate cwd .remove p with
    | error e => simp [hl] at hop
    | ok w =>
      obtain rfl := h.locate hv hp hl
      simp only [hl] at hop
      split at hop <;> cases hop
      exact h.erase hne
  | makeDirectory p =>
    have hplain : p.steps.filter (· ≠ .slash) = p.steps := hp.filter_steps (by simp)
    simp only [Tree.perform, Tree.makeDirectory, hplain, bind, Except.bind] at hop
    cases ha : refusal? p with
    | some e => simp [ha] at hop
    | none =>
      cases hf : u.follow .inspect linkLimit (start cwd p) p.steps with
      | error e => simp [ha, hf] at hop
      | ok w =>
        obtain rfl := h.locate hv hp (locate_eq_ok.2 ⟨ha, resolves_of_follow hf⟩)
        simp only [ha, hf] at hop
        split at hop <;> cases hop
        exact h.put hne (by simp)
  | removeAll p =>
    obtain rfl := Except.ok.inj hop
    unfold Tree.removeAll
    cases hl : u.locate cwd .inspect p with
    | error e => exact h
    | ok w =>
      obtain rfl := h.locate hv hp hl
      exact h.erase hne

/-! ## The directory removed -/

theorem Confined.locate_scratch (h : t.Confined (d ++ [n]) u) (hv : t.Makeable cwd scratch d n) :
    u.locate cwd .inspect scratch = .ok (d ++ [n]) := by
  obtain ⟨front, hsteps, hfront⟩ := hv.last
  obtain ⟨b, hb⟩ := (hfront.mono (h.extends hv) ⟨_, hv.dir, by simp⟩).follow_append
    ((h.extends hv).dir hv.dir)
  obtain ⟨tail, htail, htail'⟩ : ∃ tail, scratch.steps = front ++ .name n :: tail ∧
      (tail = [] ∨ tail = [.slash]) := by
    rw [Path.filter_steps] at hsteps
    rw [Path.steps, hsteps, List.append_assoc, List.singleton_append]
    exact ⟨_, rfl, by split <;> simp⟩
  rw [Tree.locate, hv.accepted]
  dsimp only
  rw [htail, hb .inspect _ (by simp) (by simp), follow_name, if_neg (by simp),
    if_neg (Nat.not_lt.2 hv.length), h.dir]
  rcases htail' with rfl | rfl <;> simp

/-- **Once the directory is removed the tree is as it was.** -/
theorem Confined.removeAll (h : t.Confined (d ++ [n]) u) (hv : t.Makeable cwd scratch d n) :
    u.removeAll cwd scratch = t := by
  rw [Tree.removeAll, h.locate_scratch hv]
  refine ext_get? fun m => ?_
  rcases eq_or_ne m [] with rfl | hm
  · rfl
  · rw [get?_erase u _ hm]
    split_ifs with hpre
    · obtain ⟨s, rfl⟩ := hpre
      exact (hv.get?_within s).symm
    · exact h.outside m hpre

/-- No directory is made under a path that goes on from the new directory by a dot or two. -/
theorem Confined.makeDirectory_refused (h : t.Confined (d ++ [n]) u)
    (hv : t.Makeable cwd scratch d n) {x : Step} (hp : scratch.Within p [x])
    (hx : x = .stay ∨ x = .up) : ∃ e, u.makeDirectory cwd p = .error e := by
  have hplain : p.steps.filter (· ≠ .slash) = p.steps :=
    hp.filter_steps (by rcases hx with rfl | rfl <;> simp)
  obtain ⟨b, hb⟩ := h.exists_follow hv hp (by rcases hx with rfl | rfl <;> simp) .inspect
  have hdir : ∃ w, u.follow .inspect b (d ++ [n]) [x] = .ok w ∧ u.get? w = some .dir := by
    rcases hx with rfl | rfl
    · exact ⟨d ++ [n], by simp, h.dir⟩
    · exact ⟨d, by simp, (h.extends hv).dir hv.dir⟩
  obtain ⟨w, hw, hwdir⟩ := hdir
  simp only [Tree.makeDirectory, hplain, hb, hw, bind, Except.bind]
  cases refusal? p with
  | some e => exact ⟨e, rfl⟩
  | none => exact ⟨.alreadyExists, by simp [hwdir]⟩

end Tree

end SourceCoding
