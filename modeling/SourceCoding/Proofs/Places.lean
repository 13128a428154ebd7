import SourceCoding.Proofs.Resolution
import SourceCoding.Proofs.Steps

/-!
# Places that paths name

A path that ends in a name names one location whatever it is resolved for, unless a link stands
there. Reading, writing and removing are then look-ups and updates at that location, and the path
goes on naming it while directories and links stay where they are.

## Main definitions

* `Tree.Enters`: a path goes through a directory to a name in it
* `Tree.Names`: a path names a location
* `Tree.Leads`: a path leads to a file, perhaps through links
* `Tree.Updates`: one location of a tree holds something else

## Main results

* `Names.read`, `Names.write`, `Names.remove`, `Names.makeDirectory`: operations at a location
* `Names.mono`, `Leads.mono`: a path goes on to its location while directories and links stay
* `Enters.append`: a path with a suffix goes through the same directory
-/

namespace SourceCoding

open SourceCoding.Path (Step)

namespace Tree

/-! ## One location changed -/

/-- **The second tree holds an entry, or nothing, at one location** and all else as the first. -/
def Updates (t t' : Tree) (l : Location) (e : Option Entry) : Prop :=
  ∀ m, t'.get? m = if m = l then e else t.get? m

variable {t t' : Tree} {cwd d l m : Location} {p : Path} {n suffix : Bytes} {aim : Aim}

theorem Updates.same {e : Option Entry} (h : t.Updates t' l e) : t'.get? l = e := by simp [h l]

theorem Updates.other {e : Option Entry} (h : t.Updates t' l e) (hm : m ≠ l) :
    t'.get? m = t.get? m := by simp [h m, hm]

theorem updates_put (h : t.Writable l) (e : Entry) : t.Updates (t.put l e) l (some e) :=
  get?_put h e

/-- Beneath what is no directory there is nothing. -/
theorem get?_beneath {s : Location} (hl : t.get? l ≠ some .dir) (hs : s ≠ []) :
    t.get? (l ++ s) = none := by
  by_contra h
  exact hl (get?_of_append hs h)

theorem updates_erase (hl : t.get? l ≠ some .dir) : t.Updates (t.erase l) l none := by
  have hne : l ≠ [] := by rintro rfl; simp at hl
  intro m
  by_cases hm : m = []
  · subst hm
    simp [Ne.symm hne]
  rw [get?_erase t l hm]
  by_cases hp : l <+: m
  · obtain ⟨s, rfl⟩ := hp
    rcases eq_or_ne s [] with rfl | hs
    · simp
    · simp [hs, get?_beneath hl hs]
  · have : m ≠ l := by rintro rfl; exact hp (List.prefix_refl _)
    simp [hp, this]

/-- A tree in which something else than a directory or a link has changed has all of them. -/
theorem Updates.extends {e : Option Entry} (h : t.Updates t' l e) (hd : t.get? l ≠ some .dir)
    (hk : ∀ q, t.get? l ≠ some (.link q)) : t'.Extends t := by
  intro m f hm hf
  by_cases hml : m = l
  · subst hml
    cases f with
    | file c => exact absurd rfl (hf c)
    | dir => exact absurd hm hd
    | link q => exact absurd hm (hk q)
  · rw [h.other hml, hm]

/-! ## Paths that end in a name -/

/-- **A path goes through a directory to a name in it.** -/
structure Enters (t : Tree) (cwd : Location) (p : Path) (d : Location) (n : Bytes) : Prop where
  /-- The directory is there. -/
  dir : t.get? d = some .dir
  /-- The name is the last step, and the steps before it lead to the directory. -/
  last : ∃ front, p.steps = front ++ [.name n] ∧ t.Resolves .use linkLimit (start cwd p) front d

theorem Enters.mono (h : t.Enters cwd p d n) (he : t'.Extends t) : t'.Enters cwd p d n := by
  obtain ⟨hd, front, hs, hf⟩ := h
  exact ⟨he.dir hd, front, hs, hf.mono he ⟨_, hd, by simp⟩⟩

theorem Enters.bytes_ne_nil (h : t.Enters cwd p d n) : p.bytes ≠ [] := by
  obtain ⟨-, front, hs, -⟩ := h
  intro hn
  have hnil : p.steps = [] := by
    rcases p with ⟨bs⟩
    subst hn
    rfl
  simp [hnil] at hs

/-- **A path with a suffix goes through the same directory.** -/
theorem Enters.append (h : t.Enters cwd p d n) (hs : Bytes.slash ∉ suffix) :
    t.Enters cwd (p.append suffix) d (n ++ suffix) := by
  obtain ⟨hd, front, hp, hf⟩ := h
  have hstart : start cwd (p.append suffix) = start cwd p := by
    rcases p with ⟨_ | ⟨b, bs⟩⟩
    · simp [Path.steps, Path.segmentsOf, Step.ofSegment?] at hp
    · simp [start, Path.isAbsolute, Path.append]
  exact ⟨hd, front, Path.steps_append hp hs, hstart ▸ hf⟩

theorem Enters.follow_name (h : t.Enters cwd p d n) (hn : n.length ≤ nameLimit)
    (hl : ∀ q, t.get? (d ++ [n]) ≠ some (.link q)) (aim : Aim) :
    t.follow aim linkLimit (start cwd p) p.steps = .ok (d ++ [n]) := by
  obtain ⟨hd, front, hs, hf⟩ := h
  obtain ⟨b, hb⟩ := hf.follow_append hd
  rw [hs, hb aim _ (by simp) (by simp), Tree.follow_name, if_neg (by simp),
    if_neg (Nat.not_lt.2 hn)]
  cases hg : t.get? (d ++ [n]) with
  | none => simp
  | some e =>
    cases e with
    | dir => simp
    | file c => simp
    | link q => exact absurd hg (hl q)

/-- What has the last name is looked at and removed itself, even if it is a link. -/
theorem Enters.follow_of_takes (h : t.Enters cwd p d n) (hn : n.length ≤ nameLimit)
    (haim : aim.takesLink) : t.follow aim linkLimit (start cwd p) p.steps = .ok (d ++ [n]) := by
  obtain ⟨hd, front, hs, hf⟩ := h
  obtain ⟨b, hb⟩ := hf.follow_append hd
  rw [hs, hb aim _ (by simp) (by simp), Tree.follow_name, if_neg (by simp),
    if_neg (Nat.not_lt.2 hn)]
  cases hg : t.get? (d ++ [n]) with
  | none => simp
  | some e => cases e <;> simp [haim]

theorem Enters.follow_tooLong (h : t.Enters cwd p d n) (hn : nameLimit < n.length) (aim : Aim) :
    t.follow aim linkLimit (start cwd p) p.steps = .error .nameTooLong := by
  obtain ⟨hd, front, hs, hf⟩ := h
  obtain ⟨b, hb⟩ := hf.follow_append hd
  rw [hs, hb aim _ (by simp) (by simp), Tree.follow_name, if_neg (by simp), if_pos hn]

/-! ## Paths that name a location -/

/-- **A path names a location**, whatever it is resolved for. -/
structure Names (t : Tree) (cwd : Location) (p : Path) (l : Location) : Prop where
  /-- The path is not refused as such. -/
  accepted : refusal? p = none
  /-- It goes through the parent to the last name. -/
  enters : ∃ d n, l = d ++ [n] ∧ n.length ≤ nameLimit ∧ t.Enters cwd p d n
  /-- No link stands there. -/
  direct : ∀ q, t.get? l ≠ some (.link q)

theorem Names.follow (h : t.Names cwd p l) (aim : Aim) :
    t.follow aim linkLimit (start cwd p) p.steps = .ok l := by
  obtain ⟨-, ⟨d, n, rfl, hn, he⟩, hq⟩ := h
  exact he.follow_name hn hq aim

theorem Names.locate (h : t.Names cwd p l) (aim : Aim) : t.locate cwd aim p = .ok l := by
  rw [Tree.locate, h.accepted]
  exact h.follow aim

/-- **A path goes on naming its location** while directories and links stay. -/
theorem Names.mono (h : t.Names cwd p l) (he : t'.Extends t)
    (hq : ∀ q, t'.get? l ≠ some (.link q)) : t'.Names cwd p l := by
  obtain ⟨ha, ⟨d, n, rfl, hlen, hd⟩, -⟩ := h
  exact ⟨ha, ⟨d, n, rfl, hlen, hd.mono he⟩, hq⟩

/-- The bytes of a segment are bytes of the path, and none of them is a slash. -/
theorem mem_of_mem_segmentsOf {bs s : Bytes} (h : s ∈ Path.segmentsOf bs) {b : UInt8} (hb : b ∈ s) :
    b ∈ bs ∧ b ≠ Bytes.slash := by
  induction bs generalizing s with
  | nil => simp [Path.segmentsOf] at h; simp [h] at hb
  | cons a rest ih =>
    rw [Path.segmentsOf] at h
    split at h
    · rcases List.mem_cons.1 h with rfl | h
      · simp at hb
      · exact (ih h hb).imp_left (List.mem_cons_of_mem _)
    · rename_i ha
      obtain ⟨s', more, hs⟩ := List.exists_cons_of_ne_nil (Path.segmentsOf_ne_nil rest)
      rw [hs] at h ih
      rcases List.mem_cons.1 h with rfl | h
      · rcases List.mem_cons.1 hb with rfl | hb
        · exact ⟨List.mem_cons_self, ha⟩
        · exact (ih List.mem_cons_self hb).imp_left (List.mem_cons_of_mem _)
      · exact (ih (List.mem_cons_of_mem _ h) hb).imp_left (List.mem_cons_of_mem _)

theorem refusal?_eq_none : refusal? p = none ↔
    (0 : UInt8) ∉ p.bytes ∧ p.bytes ≠ [] ∧ p.bytes.length < pathLimit := by
  unfold refusal?
  split_ifs with h₀ h₁ h₂
  · simp_all
  · simp_all
  · simp [Nat.not_lt.2 h₂]
  · simp_all

/-- A name in a path that is not refused is one that an entry may have. -/
theorem isName_of_mem_steps (h : .name n ∈ p.steps) (ha : refusal? p = none)
    (hn : n.length ≤ nameLimit) : isName n := by
  obtain ⟨s, hmem, hs⟩ : ∃ s ∈ Path.segmentsOf p.bytes, Step.ofSegment? s = some (.name n) := by
    rw [← List.mem_filterMap, ← Path.filter_steps]
    exact List.mem_filter.2 ⟨h, by simp⟩
  obtain ⟨rfl, hne, hd, hdd⟩ := Path.ofSegment?_eq_name.1 hs
  have hslash : Bytes.slash ∉ s := fun hb => (mem_of_mem_segmentsOf hmem hb).2 rfl
  have hzero : (0 : UInt8) ∉ s := fun hb =>
    (refusal?_eq_none.1 ha).1 (mem_of_mem_segmentsOf hmem hb).1
  simp [SourceCoding.isName, hne, hd, hdd, hslash, hzero, hn]

/-- The last name of a path that is not refused is one that an entry may have. -/
theorem Enters.isName (h : t.Enters cwd p d n) (ha : refusal? p = none)
    (hn : n.length ≤ nameLimit) : isName n := by
  obtain ⟨-, front, hs, -⟩ := h
  exact isName_of_mem_steps (by simp [hs]) ha hn

theorem Names.writable (h : t.Names cwd p l) (hl : t.get? l ≠ some .dir) : t.Writable l := by
  obtain ⟨ha, ⟨d, n, rfl, hn, he⟩, -⟩ := h
  exact ⟨⟨n, by simp, he.isName ha hn⟩, by simpa using he.dir, hl⟩

/-! ## Paths that lead somewhere -/

/-- **A path leads where its steps lead**, if it is not refused as such. -/
theorem locate_eq_ok : t.locate cwd aim p = .ok l ↔
    refusal? p = none ∧ t.Resolves aim linkLimit (start cwd p) p.steps l := by
  unfold locate
  cases ha : refusal? p with
  | some e => simp
  | none => simp [resolves_iff]

/-- **A path leads to a file**, perhaps through a link that stands in its last place. -/
structure Leads (t : Tree) (cwd : Location) (p : Path) (l : Location) : Prop where
  /-- The path is not refused as such. -/
  accepted : refusal? p = none
  /-- Its steps lead to the location. -/
  resolves : t.Resolves .use linkLimit (start cwd p) p.steps l
  /-- A file is there. -/
  file : ∃ c, t.get? l = some (.file c)

/-- **A path goes on leading to a file** while directories and links stay. -/
theorem Leads.mono (h : t.Leads cwd p l) (he : t'.Extends t)
    (hf : ∃ c, t'.get? l = some (.file c)) : t'.Leads cwd p l := by
  obtain ⟨c, hc⟩ := h.file
  exact ⟨h.accepted, h.resolves.mono he ⟨_, hc, fun _ _ => hf⟩, hf⟩

theorem Leads.locate (h : t.Leads cwd p l) : t.locate cwd .use p = .ok l :=
  locate_eq_ok.2 ⟨h.accepted, h.resolves⟩

theorem Leads.locate_write (h : t.Leads cwd p l) : t.locate cwd .write p = .ok l := by
  obtain ⟨c, hc⟩ := h.file
  exact locate_eq_ok.2 ⟨h.accepted, h.resolves.write hc⟩

theorem leads_of_locate {c : Bytes} (h : t.locate cwd .use p = .ok l)
    (hc : t.get? l = some (.file c)) : t.Leads cwd p l := by
  obtain ⟨ha, hr⟩ := locate_eq_ok.1 h
  exact ⟨ha, hr, c, hc⟩

theorem Leads.writable (h : t.Leads cwd p l) : t.Writable l := by
  obtain ⟨c, hc⟩ := h.file
  have hne : l ≠ [] := by rintro rfl; simp at hc
  refine ⟨⟨l.getLast hne, List.getLast?_eq_some_getLast hne, ?_⟩, ?_, by simp [hc]⟩
  · exact isName_of_get? hc _ (List.getLast_mem hne)
  · exact get?_dropLast (by simp [hc])

/-! ## Operations at a location -/

/-- The content of what stands at a location, or why it has none. -/
def contentOf : Option Entry → Except SystemError Bytes
  | none => .error .notFound
  | some (.file content) => .ok content
  | some .dir => .error .isDirectory
  | some (.link _) => .error .tooManyLinks

theorem read_of_locate (h : t.locate cwd .use p = .ok l) :
    t.read cwd p = contentOf (t.get? l) := by
  simp only [Tree.read, status, entryAt, h, bind, Except.bind]
  cases t.get? l with
  | none => rfl
  | some e => cases e <;> rfl

theorem Names.read (h : t.Names cwd p l) : t.read cwd p = contentOf (t.get? l) :=
  read_of_locate (h.locate .use)

theorem Leads.read (h : t.Leads cwd p l) : t.read cwd p = contentOf (t.get? l) :=
  read_of_locate h.locate

theorem write_of_locate (h : t.locate cwd .write p = .ok l) (hl : t.Writable l) (c : Bytes) :
    ∃ t', t.write cwd p c = .ok t' ∧ t.Updates t' l (some (.file c)) := by
  refine ⟨t.put l (.file c), ?_, updates_put hl _⟩
  simp [Tree.write, h, hl.2.2, bind, Except.bind]

/-- **A write** where no directory stands leaves a file. -/
theorem Names.write (h : t.Names cwd p l) (hl : t.get? l ≠ some .dir) (c : Bytes) :
    ∃ t', t.write cwd p c = .ok t' ∧ t.Updates t' l (some (.file c)) :=
  write_of_locate (h.locate .write) (h.writable hl) c

/-- **A write** through a path that leads to a file gives it another content. -/
theorem Leads.write (h : t.Leads cwd p l) (c : Bytes) :
    ∃ t', t.write cwd p c = .ok t' ∧ t.Updates t' l (some (.file c)) :=
  write_of_locate h.locate_write h.writable c

/-- **A write** is refused where a directory stands. -/
theorem Names.write_dir (h : t.Names cwd p l) (hl : t.get? l = some .dir) (c : Bytes) :
    t.write cwd p c = .error .isDirectory := by
  simp [Tree.write, h.locate .write, hl, bind, Except.bind]

/-- **A removal** leaves nothing of a file. -/
theorem Names.remove {c : Bytes} (h : t.Names cwd p l) (hl : t.get? l = some (.file c)) :
    ∃ t', t.remove cwd p = .ok t' ∧ t.Updates t' l none := by
  refine ⟨t.erase l, ?_, updates_erase (by simp [hl])⟩
  simp [Tree.remove, h.locate .remove, hl, bind, Except.bind]

theorem Names.makeDirectory_eq (h : t.Names cwd p l) :
    t.makeDirectory cwd p =
      match t.get? l with
      | none => .ok (t.put l .dir)
      | some _ => .error .alreadyExists := by
  have hf := h.follow .inspect
  obtain ⟨ha, ⟨d, n, rfl, -, -, front, hs, -⟩, -⟩ := h
  have hfilter : p.steps.filter (· ≠ .slash) = p.steps := by
    obtain ⟨init, hi, -, hslash, -⟩ := Path.segmentsOf_of_steps hs
    rw [Path.filter_steps, Path.steps, if_neg hslash, List.append_nil]
  cases hg : t.get? (d ++ [n]) <;>
    simp only [Tree.makeDirectory, ha, hfilter, hf, hg, bind, Except.bind]

/-- **A directory made** where nothing is. -/
theorem Names.makeDirectory (h : t.Names cwd p l) (hl : t.get? l = none) :
    ∃ t', t.makeDirectory cwd p = .ok t' ∧ t.Updates t' l (some .dir) := by
  refine ⟨t.put l .dir, ?_, updates_put (h.writable (by simp [hl])) _⟩
  rw [h.makeDirectory_eq, hl]

theorem Names.inspect_none (h : t.Names cwd p l) (hl : t.get? l = none) :
    t.inspect cwd p = .error .notFound := by
  simp [Tree.inspect, entryAt, h.locate .inspect, hl, bind, Except.bind]

end Tree

end SourceCoding
