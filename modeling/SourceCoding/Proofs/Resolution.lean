import Mathlib.Data.List.Induction
import Mathlib.Tactic.Common
import SourceCoding.Tree.Access

/-!
# Resolution as a relation

A path that can be resolved is resolved by a chain of steps. The relation has one rule for each
way to take a step, so what holds of resolution is shown by induction on the chain.

## Main definitions

* `Tree.Resolves`: the steps lead from a directory to a location
* `Tree.Extends`: all directories and links of another tree are there

## Main results

* `Tree.resolves_iff`: the relation is what `Tree.follow` computes
* `Resolves.follow_append`: a path goes on from the directory where its front leads
* `Resolves.mono`: what is reached stays reached when directories and links stay
* `Resolves.exists_last`: a path to a file ends in a name in a directory
-/

namespace SourceCoding

open SourceCoding.Path (Step)

theorem length_le_of_isName {n : Bytes} (h : isName n) : n.length ≤ nameLimit := by
  simp only [isName, Bool.and_eq_true, decide_eq_true_eq] at h
  exact h.2

namespace Tree

/-- How resolution goes on at a link, with a budget of links. -/
def jump (t : Tree) (aim : Aim) : Nat → Location → Path → List Step → Except SystemError Location
  | 0 => fun _ _ _ => .error .tooManyLinks
  | budget + 1 => fun here target rest =>
    t.follow aim budget (start here target) (target.steps ++ rest)

theorem follow_eq (t : Tree) (aim : Aim) (b : Nat) :
    t.follow aim b = t.descend (t.jump aim b) aim := by
  cases b <;> rfl

section Equations

variable (t : Tree) (aim : Aim) (b : Nat) (here : Location)

@[simp] theorem follow_nil : t.follow aim b here [] = .ok here := by
  rw [follow_eq, descend]

@[simp] theorem follow_stay (rest : List Step) :
    t.follow aim b here (.stay :: rest) = t.follow aim b here rest := by
  rw [follow_eq, descend]

@[simp] theorem follow_slash (rest : List Step) :
    t.follow aim b here (.slash :: rest) = t.follow aim b here rest := by
  rw [follow_eq, descend]

@[simp] theorem follow_up (rest : List Step) :
    t.follow aim b here (.up :: rest) = t.follow aim b here.dropLast rest := by
  rw [follow_eq, descend]

theorem follow_name (n : Bytes) (rest : List Step) :
    t.follow aim b here (.name n :: rest) =
      if aim = .write ∧ rest = [.slash] then .error .isDirectory
      else if nameLimit < n.length then .error .nameTooLong
      else match t.get? (here ++ [n]) with
        | none => if rest = [] then .ok (here ++ [n]) else .error .notFound
        | some .dir => t.follow aim b (here ++ [n]) rest
        | some (.file _) => if rest = [] then .ok (here ++ [n]) else .error .notDirectory
        | some (.link target) =>
          if rest = [] ∧ aim.takesLink then .ok (here ++ [n])
          else if rest = [.slash] ∧ aim = .remove then .error .notDirectory
          else t.jump aim b here target rest := by
  rw [follow_eq]
  rfl

end Equations

/-- **The steps lead from a directory to a location**, through at most so many links. -/
inductive Resolves (t : Tree) (aim : Aim) : Nat → Location → List Step → Location → Prop where
  /-- No step is left. -/
  | here {b here} : Resolves t aim b here [] here
  /-- The directory itself. -/
  | stay {b here rest l} : Resolves t aim b here rest l → Resolves t aim b here (.stay :: rest) l
  /-- The slash at the end. -/
  | slash {b here rest l} : Resolves t aim b here rest l → Resolves t aim b here (.slash :: rest) l
  /-- The parent. -/
  | up {b here rest l} : Resolves t aim b here.dropLast rest l →
      Resolves t aim b here (.up :: rest) l
  /-- A last name that is free. -/
  | free {b here n} : n.length ≤ nameLimit → t.get? (here ++ [n]) = none →
      Resolves t aim b here [.name n] (here ++ [n])
  /-- A last name that is a file's. -/
  | file {b here n c} : n.length ≤ nameLimit → t.get? (here ++ [n]) = some (.file c) →
      Resolves t aim b here [.name n] (here ++ [n])
  /-- A directory that is entered. -/
  | enter {b here n rest l} : ¬ (aim = .write ∧ rest = [.slash]) → n.length ≤ nameLimit →
      t.get? (here ++ [n]) = some .dir → Resolves t aim b (here ++ [n]) rest l →
      Resolves t aim b here (.name n :: rest) l
  /-- A last name that is a link's, where the link itself is meant. -/
  | take {b here n target} : n.length ≤ nameLimit → t.get? (here ++ [n]) = some (.link target) →
      aim.takesLink → Resolves t aim b here [.name n] (here ++ [n])
  /-- A link that is followed. -/
  | link {b here n target rest l} : ¬ (aim = .write ∧ rest = [.slash]) → n.length ≤ nameLimit →
      t.get? (here ++ [n]) = some (.link target) → ¬ (rest = [] ∧ aim.takesLink) →
      ¬ (rest = [.slash] ∧ aim = .remove) →
      Resolves t aim b (start here target) (target.steps ++ rest) l →
      Resolves t aim (b + 1) here (.name n :: rest) l

variable {t t' : Tree} {aim : Aim} {b : Nat} {here l d : Location} {steps front : List Step}
  {n : Bytes}

/-- The steps up to the next link, given what the links in reserve lead to. -/
theorem resolves_of_jump
    (hj : ∀ here target rest, t.jump aim b here target rest = .ok l →
      ∃ b', b = b' + 1 ∧ t.Resolves aim b' (start here target) (target.steps ++ rest) l)
    (h : t.follow aim b here steps = .ok l) : t.Resolves aim b here steps l := by
  -- Induction on the steps: a link ends it, and what comes after is `hj`.
  induction steps generalizing here with
  | nil =>
    rw [follow_nil] at h
    cases h
    exact .here
  | cons s rest ih =>
    cases s with
    | stay => exact .stay (ih (by simpa using h))
    | slash => exact .slash (ih (by simpa using h))
    | up => exact .up (ih (by simpa using h))
    | name n =>
      rw [follow_name] at h
      by_cases hw : aim = .write ∧ rest = [.slash]
      · simp [hw] at h
      by_cases hn : nameLimit < n.length
      · simp [hw, hn] at h
      rw [if_neg hw, if_neg hn] at h
      have hn := Nat.le_of_not_lt hn
      cases hg : t.get? (here ++ [n]) with
      | none =>
        by_cases hr : rest = [] <;> simp only [hg, hr, if_true, if_false] at h <;> cases h
        exact hr ▸ .free hn hg
      | some e =>
        cases e with
        | dir => exact .enter hw hn hg (ih (by simpa only [hg] using h))
        | file c =>
          by_cases hr : rest = [] <;> simp only [hg, hr, if_true, if_false] at h <;> cases h
          exact hr ▸ .file hn hg
        | link target =>
          simp only [hg] at h
          by_cases hr : rest = [] ∧ aim.takesLink
          · rw [if_pos hr] at h
            cases h
            exact hr.1 ▸ .take hn hg hr.2
          by_cases hs : rest = [.slash] ∧ aim = .remove
          · rw [if_neg hr, if_pos hs] at h
            cases h
          rw [if_neg hr, if_neg hs] at h
          obtain ⟨b', rfl, hl⟩ := hj _ _ _ h
          exact .link hw hn hg hr hs hl

theorem resolves_of_follow (h : t.follow aim b here steps = .ok l) :
    t.Resolves aim b here steps l := by
  -- Induction on the links in reserve, one of which is used up at each link.
  induction b generalizing here steps with
  | zero => exact resolves_of_jump (by simp [jump]) h
  | succ b ih => exact resolves_of_jump (fun _ _ _ hj => ⟨b, rfl, ih hj⟩) h

theorem Resolves.follow (h : t.Resolves aim b here steps l) :
    t.follow aim b here steps = .ok l := by
  induction h with
  | here => simp
  | stay _ ih => simpa using ih
  | slash _ ih => simpa using ih
  | up _ ih => simpa using ih
  | free hn hl => simp [follow_name, hl, Nat.not_lt.2 hn]
  | file hn hl => simp [follow_name, hl, Nat.not_lt.2 hn]
  | enter hw hn hl _ ih => simp [follow_name, hl, Nat.not_lt.2 hn, hw, ih]
  | take hn hl ht => simp [follow_name, hl, Nat.not_lt.2 hn, ht]
  | link hw hn hl ht hs _ ih =>
    simp only [follow_name, hl, Nat.not_lt.2 hn, hw, ht, hs, jump, ih, if_false]

/-- **The relation is what resolution computes.** -/
theorem resolves_iff : t.follow aim b here steps = .ok l ↔ t.Resolves aim b here steps l :=
  ⟨resolves_of_follow, Resolves.follow⟩

/-! ## Where the steps lead -/

theorem get?_start (h : t.get? here = some .dir) (p : Path) :
    t.get? (start here p) = some .dir := by
  unfold start
  split <;> simp [h]

theorem get?_of_get?_concat {e : Entry} (h : t.get? (here ++ [n]) = some e) :
    t.get? here = some .dir := by
  simpa using get?_dropLast (l := here ++ [n]) (by simp [h])

/-- What is on the way to an entry is a directory. -/
theorem get?_of_append {k s : Location} (hs : s ≠ []) (h : t.get? (k ++ s) ≠ none) :
    t.get? k = some .dir := by
  induction s using List.reverseRecOn with
  | nil => exact absurd rfl hs
  | append_singleton s n ih =>
    have hp : t.get? (k ++ s) = some .dir := by
      simpa [← List.append_assoc] using get?_dropLast h
    rcases eq_or_ne s [] with rfl | hs
    · simpa using hp
    · exact ih hs (by simp [hp])

/-- A path that ends in a slash leads to a directory. -/
theorem Resolves.get?_of_slash (h : t.Resolves aim b here steps l) (hd : t.get? here = some .dir)
    (hs : steps.getLast? = some .slash) : t.get? l = some .dir := by
  induction h with
  | here => simp at hs
  | stay _ ih =>
    rw [List.getLast?_cons] at hs
    exact ih hd (by grind)
  | @slash _ _ rest _ hr ih =>
    cases rest with
    | nil => cases hr; exact hd
    | cons s rest => exact ih hd (by simpa using hs)
  | up _ ih =>
    rw [List.getLast?_cons] at hs
    exact ih (get?_dropLast (by simp [hd])) (by grind)
  | free | file | take => simp at hs
  | @enter _ _ _ rest _ _ _ hn hr ih =>
    rw [List.getLast?_cons] at hs
    exact ih hn (by grind)
  | @link _ _ _ target rest _ _ _ hn _ _ _ ih =>
    rw [List.getLast?_cons] at hs
    refine ih (get?_start hd _) ?_
    rw [List.getLast?_append]
    grind

/-- A directory that a path reaches is reached without the slash at the end. -/
theorem Resolves.of_slash (h : t.Resolves .use b here steps l) (hs : steps = front ++ [.slash]) :
    t.Resolves .use b here front l := by
  induction h generalizing front with
  | here => simp at hs
  | stay _ ih =>
    rcases front with _ | ⟨s, front⟩ <;> simp at hs
    exact hs.1 ▸ .stay (ih hs.2)
  | slash hr ih =>
    rcases front with _ | ⟨s, front⟩ <;> simp at hs
    · subst hs
      cases hr
      exact .here
    · exact hs.1 ▸ .slash (ih hs.2)
  | up _ ih =>
    rcases front with _ | ⟨s, front⟩ <;> simp at hs
    exact hs.1 ▸ .up (ih hs.2)
  | free | file | take => rcases front with _ | ⟨s, front⟩ <;> simp at hs
  | enter _ hn hg _ ih =>
    rcases front with _ | ⟨s, front⟩ <;> simp at hs
    exact hs.1 ▸ .enter (by simp) hn hg (ih hs.2)
  | @link _ _ _ target _ _ _ hn hg _ _ _ ih =>
    rcases front with _ | ⟨s, front⟩ <;> simp at hs
    refine hs.1 ▸ .link (by simp) hn hg (by simp [Aim.takesLink]) (by simp) (ih ?_)
    rw [hs.2, List.append_assoc]

/-- **A path goes on from the directory where its front leads**, with the links that are left. -/
theorem Resolves.follow_append (h : t.Resolves .use b here front d) (hd : t.get? d = some .dir) :
    ∃ b', ∀ (aim : Aim) (rest : List Step), rest ≠ [] → rest ≠ [.slash] →
      t.follow aim b here (front ++ rest) = t.follow aim b' d rest := by
  induction h with
  | here => exact ⟨_, fun _ _ _ _ => rfl⟩
  | stay _ ih => simpa using ih hd
  | slash _ ih => simpa using ih hd
  | up _ ih => simpa using ih hd
  | free _ hg => simp [hg] at hd
  | file _ hg => simp [hg] at hd
  | take _ hg => simp [hg] at hd
  | @enter _ _ n front _ _ hn hg _ ih =>
    obtain ⟨b', hb⟩ := ih hd
    refine ⟨b', fun aim rest h₁ h₂ => ?_⟩
    rw [List.cons_append, follow_name, if_neg, if_neg (Nat.not_lt.2 hn), hg]
    · exact hb aim rest h₁ h₂
    · rintro ⟨-, hr⟩
      rcases front with _ | ⟨s, front⟩ <;> simp_all
  | @link _ _ n target front _ _ hn hg _ _ _ ih =>
    obtain ⟨b', hb⟩ := ih hd
    refine ⟨b', fun aim rest h₁ h₂ => ?_⟩
    have hr : front ++ rest ≠ [.slash] := by
      rcases front with _ | ⟨s, front⟩ <;> simp_all
    rw [List.cons_append, follow_name, if_neg (by simp [hr]), if_neg (Nat.not_lt.2 hn), hg]
    simp only [List.append_eq_nil_iff, h₁, and_false, false_and, if_false, hr]
    have := hb aim rest h₁ h₂
    rwa [List.append_assoc] at this

/-! ## What the path is resolved for -/

/-- What is reached for any purpose, links apart, is reached for use. -/
theorem Resolves.use (h : t.Resolves aim b here steps l) (hl : ∀ p, t.get? l ≠ some (.link p)) :
    t.Resolves .use b here steps l := by
  induction h with
  | here => exact .here
  | stay _ ih => exact .stay (ih hl)
  | slash _ ih => exact .slash (ih hl)
  | up _ ih => exact .up (ih hl)
  | free hn hg => exact .free hn hg
  | file hn hg => exact .file hn hg
  | enter _ hn hg _ ih => exact .enter (by simp) hn hg (ih hl)
  | take _ hg => exact absurd hg (hl _)
  | link _ hn hg _ _ _ ih => exact .link (by simp) hn hg (by simp [Aim.takesLink]) (by simp) (ih hl)

/-- A file that is reached for use is reached for writing. -/
theorem Resolves.write {c : Bytes} (h : t.Resolves .use b here steps l)
    (hl : t.get? l = some (.file c)) : t.Resolves .write b here steps l := by
  induction h with
  | here => exact .here
  | stay _ ih => exact .stay (ih hl)
  | slash _ ih => exact .slash (ih hl)
  | up _ ih => exact .up (ih hl)
  | free hn hg => exact .free hn hg
  | file hn hg => exact .file hn hg
  | enter _ hn hg hr ih =>
    refine .enter ?_ hn hg (ih hl)
    -- A slash after the name would have led to a directory.
    rintro ⟨-, rfl⟩
    simp [hr.get?_of_slash hg (by simp)] at hl
  | take _ _ ht => simp [Aim.takesLink] at ht
  | link _ hn hg _ _ hr ih =>
    refine .link ?_ hn hg (by simp [Aim.takesLink]) (by simp) (ih hl)
    rintro ⟨-, rfl⟩
    have := hr.get?_of_slash (get?_start (get?_of_get?_concat hg) _) (by simp)
    simp [this] at hl

/-! ## Trees that have more -/

/-- **All directories and links of another tree are there.** -/
def Extends (t' t : Tree) : Prop :=
  ∀ l e, t.get? l = some e → (∀ c, e ≠ .file c) → t'.get? l = some e

theorem Extends.refl (t : Tree) : t.Extends t := fun _ _ h _ => h

theorem Extends.trans {t₁ t₂ t₃ : Tree} (h₁ : t₁.Extends t₂) (h₂ : t₂.Extends t₃) :
    t₁.Extends t₃ :=
  fun l e hl he => h₁ l e (h₂ l e hl he) he

theorem Extends.dir (h : t'.Extends t) (hl : t.get? l = some .dir) : t'.get? l = some .dir :=
  h l _ hl (by simp)

/-- **What is reached stays reached** when directories and links stay, and the file if it is one. -/
theorem Resolves.mono (h : t.Resolves aim b here steps l) (he : t'.Extends t)
    (hl : ∃ e, t.get? l = some e ∧ ∀ c, e = .file c → ∃ c', t'.get? l = some (.file c')) :
    t'.Resolves aim b here steps l := by
  induction h with
  | here => exact .here
  | stay _ ih => exact .stay (ih hl)
  | slash _ ih => exact .slash (ih hl)
  | up _ ih => exact .up (ih hl)
  | free _ hg => simp [hg] at hl
  | file hn hg =>
    obtain ⟨e, hg', hf⟩ := hl
    obtain ⟨c', hc⟩ := hf _ (Option.some.inj (hg'.symm.trans hg))
    exact .file hn hc
  | enter hw hn hg _ ih => exact .enter hw hn (he.dir hg) (ih hl)
  | take hn hg ht => exact .take hn (he _ _ hg (by simp)) ht
  | link hw hn hg ht hs _ ih => exact .link hw hn (he _ _ hg (by simp)) ht hs (ih hl)

/-- **A path to a file ends in a name in a directory.** The name is a link's if the path ends in a
link to the file. -/
theorem Resolves.exists_last {c : Bytes} (h : t.Resolves .use b here steps l)
    (hd : t.get? here = some .dir) (hl : t.get? l = some (.file c)) :
    ∃ front d n, steps = front ++ [.name n] ∧ t.Resolves .use b here front d ∧
      t.get? d = some .dir ∧
      ∃ e, t.get? (d ++ [n]) = some e ∧ ((∀ p, e ≠ .link p) → d ++ [n] = l) := by
  induction h with
  | here => simp [hd] at hl
  | stay _ ih =>
    obtain ⟨front, d, n, rfl, hf, hd', he⟩ := ih hd hl
    exact ⟨.stay :: front, d, n, rfl, .stay hf, hd', he⟩
  | slash _ ih =>
    obtain ⟨front, d, n, rfl, hf, hd', he⟩ := ih hd hl
    exact ⟨.slash :: front, d, n, rfl, .slash hf, hd', he⟩
  | up _ ih =>
    obtain ⟨front, d, n, rfl, hf, hd', he⟩ := ih (get?_dropLast (by simp [hd])) hl
    exact ⟨.up :: front, d, n, rfl, .up hf, hd', he⟩
  | free _ hg => simp [hg] at hl
  | @file _ here n _ hn hg => exact ⟨[], here, n, rfl, .here, hd, _, hg, fun _ => rfl⟩
  | take _ hg => simp [hg] at hl
  | enter _ hn hg _ ih =>
    obtain ⟨front, d, m, rfl, hf, hd', he⟩ := ih hg hl
    exact ⟨.name _ :: front, d, m, rfl, .enter (by simp) hn hg hf, hd', he⟩
  | @link _ here n target rest _ _ hn hg _ _ _ ih =>
    obtain ⟨front, d, m, hs, hf, hd', he⟩ := ih (get?_start hd _) hl
    rcases List.eq_nil_or_concat rest with rfl | ⟨rest, s, rfl⟩
    · exact ⟨[], here, n, rfl, .here, hd, _, hg, fun h => absurd rfl (h target)⟩
    · rw [List.concat_eq_append, ← List.append_assoc] at hs
      obtain ⟨rfl, hm⟩ := List.append_inj' hs rfl
      obtain rfl := List.singleton_inj.1 hm
      exact ⟨.name n :: rest, d, m, by simp,
        .link (by simp) hn hg (by simp [Aim.takesLink]) (by simp) hf, hd', he⟩

/-- Names of directories lead from one to the next. -/
theorem resolves_names {names : Location} (h : t.get? (d ++ names) = some .dir) :
    t.Resolves .use b d (names.map .name) (d ++ names) := by
  induction names generalizing d with
  | nil => simpa using .here
  | cons n names ih =>
    rw [List.append_cons] at h ⊢
    have hn : t.get? (d ++ [n]) = some .dir := by
      rcases eq_or_ne names [] with rfl | hne
      · simpa using h
      · exact get?_of_append hne (Option.ne_none_iff_exists'.2 ⟨_, h⟩)
    have hlen : n.length ≤ nameLimit := length_le_of_isName (isName_of_get? hn n (by simp))
    exact .enter (by simp) hlen hn (ih h)

end Tree

end SourceCoding
