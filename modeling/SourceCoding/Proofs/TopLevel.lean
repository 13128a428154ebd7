import Mathlib.Tactic.Common
import SourceCoding.Toml.Reader

/-!
# What stands at the top level of a document

A value that is no table stands under a key of a document if it is assigned to this key alone before
the first header. Nothing else has a part in it: not the order of the assignments, not how a key is
quoted, and no table, however it comes about and whichever keys are repeated in it.

## Main definitions

* `Toml.Fields.Agree`: two tables differ in the tables within them at most
* `Toml.Sets`: a document assigns a value to a key before its first header

## Main results

* `Toml.Fields.agree_of_alter`: a change beneath a key leaves what is no table
* `Toml.get?_of_run`: what one statement brings to the top level
* `Toml.get?_iff_sets`: what stands at the top level of a document
-/

namespace SourceCoding.Toml

/-- A table, or an array of tables opened by headers. -/
def Value.isTable : Value → Bool
  | .table _ _ | .tables _ => true
  | _ => false

namespace Fields

variable {fields fields' : Fields} {key k : String} {v w : Value}

/-! ## Looking up after a change -/

theorem get?_cons (name k : String) (w : Value) (fields : Fields) :
    Fields.get? ((name, w) :: fields) k = if k = name then some w else fields.get? k := by
  rw [get?, List.lookup_cons]
  split_ifs with h
  · simp [h]
  · rw [beq_eq_false_iff_ne.2 h]
    rfl

theorem get?_add? (h : fields.add? key v = some fields') (k : String) :
    fields.get? key = none ∧ fields'.get? k = if k = key then some v else fields.get? k := by
  unfold add? at h
  split_ifs at h with hnew
  have hnone : fields.get? key = none := by simpa using hnew
  refine ⟨hnone, ?_⟩
  have hnew := get?_cons key k v []
  rw [← Option.some.inj h, get?, List.lookup_append, ← get?, ← get?, hnew]
  split_ifs with hk
  · rw [hk, hnone]
    rfl
  · exact Option.or_none

theorem get?_replace (fields : Fields) (key k : String) (v : Value) :
    (fields.replace key v).get? k =
      if k = key then (fields.get? key).map fun _ => v else fields.get? k := by
  induction fields with
  | nil => simp [replace, get?]
  | cons f fields ih =>
    obtain ⟨name, w⟩ := f
    rw [replace, List.map_cons, ← replace]
    rcases eq_or_ne name key with rfl | hname
    · rcases eq_or_ne k name with rfl | hk
      · simp [get?_cons]
      · simp [get?_cons, hk, ih]
    · rcases eq_or_ne k key with rfl | hk
      · simp [get?_cons, hname, hname.symm, ih]
      · simp [get?_cons, hname, hk, ih]

/-! ## Changes within tables -/

/-- **Two tables differ in the tables within them at most.** -/
def Agree (fields fields' : Fields) : Prop :=
  ∀ k v, v.isTable = false → (fields'.get? k = some v ↔ fields.get? k = some v)

/-- A key under which nothing or a table stood, and a table stands now. -/
theorem agree_of_table (hold : ∀ v, fields.get? key = some v → v.isTable)
    (hnew : w.isTable) (h : ∀ k, fields'.get? k = if k = key then some w else fields.get? k) :
    Agree fields fields' := by
  intro k v hv
  rw [h k]
  split_ifs with hk
  · subst hk
    constructor
    · rintro ⟨⟩
      simp [hnew] at hv
    · intro hg
      simp [hold v hg] at hv
  · rfl

theorem agree_of_add? (hw : w.isTable) (h : fields.add? key w = some fields') :
    Agree fields fields' := by
  refine agree_of_table (fun v hv => ?_) hw fun k => (get?_add? h k).2
  simp [(get?_add? h key).1] at hv

theorem agree_of_replace (hold : fields.get? key = some v) (hv : v.isTable) (hw : w.isTable) :
    Agree fields (fields.replace key w) := by
  refine agree_of_table (fun v' hv' => ?_) hw fun k => by rw [get?_replace, hold, Option.map_some]
  rw [hold] at hv'
  exact Option.some.inj hv' ▸ hv

/-- **A change beneath a key leaves what is no table.** -/
theorem agree_of_alter {byDots : Bool} {change : TableKind → Fields → Option Fields}
    {path : List String} {kind : TableKind} (hne : path ≠ [])
    (h : alter byDots change path kind fields = some fields') : Agree fields fields' := by
  obtain ⟨key, path, rfl⟩ := List.exists_cons_of_ne_nil hne
  rw [alter] at h
  cases hg : fields.get? key with
  | none =>
    simp only [hg, Option.bind_eq_bind, Option.bind_eq_some_iff] at h
    obtain ⟨inner, -, h⟩ := h
    exact agree_of_add? rfl h
  | some old =>
    cases old with
    | table kind' inner =>
      simp only [hg] at h
      split_ifs at h
      obtain ⟨inner', -, h⟩ := Option.bind_eq_some_iff.1 h
      obtain rfl := Option.some.inj h
      exact agree_of_replace hg rfl rfl
    | tables items =>
      simp only [hg, Option.bind_eq_bind, Option.bind_eq_some_iff] at h
      obtain ⟨last, -, inner', -, h⟩ := h
      obtain rfl := Option.some.inj h
      exact agree_of_replace hg rfl rfl
    | _ => simp [hg] at h

/-- So does a change at any path if it does at the empty one. -/
theorem agree_of_alter_any {byDots : Bool} {change : TableKind → Fields → Option Fields}
    {path : List String} {kind : TableKind}
    (hchange : ∀ {fields'}, change kind fields = some fields' → Agree fields fields')
    (h : alter byDots change path kind fields = some fields') : Agree fields fields' := by
  cases path with
  | nil => exact hchange (by rwa [alter] at h)
  | cons name path => exact agree_of_alter (List.cons_ne_nil name path) h

/-- The header of a table leaves what is no table. -/
theorem agree_of_openTable {path : List String} (h : fields.openTable path key = some fields') :
    Agree fields fields' := by
  refine agree_of_alter_any (fun {fields'} h => ?_) h
  split at h
  · exact agree_of_add? rfl h
  · rename_i hg
    obtain rfl := Option.some.inj h
    exact agree_of_replace hg rfl rfl
  · cases h

/-- So does the header of one more table of an array. -/
theorem agree_of_openItem {path : List String} (h : fields.openItem path key = some fields') :
    Agree fields fields' := by
  refine agree_of_alter_any (fun {fields'} h => ?_) h
  split at h
  · exact agree_of_add? rfl h
  · rename_i hg
    obtain rfl := Option.some.inj h
    exact agree_of_replace hg rfl rfl
  · cases h

/-- An assignment adds a field to the document, or it is made beneath a key. -/
theorem assign_cases {header path : List String}
    (h : assign header path key v .opened fields = some fields') :
    header = [] ∧ path = [] ∧ fields.add? key v = some fields' ∨
      (header ≠ [] ∨ path ≠ []) ∧ Agree fields fields' := by
  rcases eq_or_ne header [] with rfl | hheader
  · rcases eq_or_ne path [] with rfl | hpath
    · exact .inl ⟨rfl, rfl, by simpa [assign, alter] using h⟩
    · rw [assign, alter] at h
      exact .inr ⟨.inr hpath, agree_of_alter hpath h⟩
  · exact .inr ⟨.inl hheader, agree_of_alter hheader h⟩

end Fields

/-! ## The statements of a document -/

/-- A statement that is no header. -/
def Statement.isAssign : Statement → Bool
  | .assign _ _ _ => true
  | _ => false

variable {s : Statement} {ss : List Statement} {d d' : Draft} {k : String} {v : Value}

/-- A document is under a header from the first one on. -/
theorem header_of_run (h : s.run d = some d') :
    if s.isAssign then d'.header = d.header else d'.header ≠ [] := by
  cases s <;> obtain ⟨fields, -, rfl⟩ := Option.map_eq_some_iff.1 h <;> simp [Statement.isAssign]

/-- **What one statement brings to the top level**, of what is no table. -/
theorem get?_of_run (hv : v.isTable = false) (h : s.run d = some d') :
    d'.fields.get? k = some v ↔
      d.fields.get? k = some v ∨ d.header = [] ∧ s = .assign [] k v := by
  cases s with
  | assign path name w =>
    obtain ⟨fields, hfields, rfl⟩ := Option.map_eq_some_iff.1 h
    rcases Fields.assign_cases hfields with ⟨hheader, rfl, hadd⟩ | ⟨hbeneath, hagree⟩
    · obtain ⟨hnone, hget⟩ := Fields.get?_add? hadd k
      dsimp only
      rw [hget]
      split_ifs with hk
      · subst hk
        simp [hnone, hheader, eq_comm]
      · simp [Ne.symm hk]
    · rw [hagree k v hv]
      have hnot : ¬ (d.header = [] ∧ Statement.assign path name w = .assign [] k v) := by
        rintro ⟨hheader, heq⟩
        simp only [Statement.assign.injEq] at heq
        simp [hheader, heq.1] at hbeneath
      exact (or_iff_left hnot).symm
  | openTable path name =>
    obtain ⟨fields, hfields, rfl⟩ := Option.map_eq_some_iff.1 h
    simp [Fields.agree_of_openTable hfields k v hv]
  | openItem path name =>
    obtain ⟨fields, hfields, rfl⟩ := Option.map_eq_some_iff.1 h
    simp [Fields.agree_of_openItem hfields k v hv]

/-- What the statements of a document bring to the top level: the assignments before the first
header count. -/
theorem get?_of_runs (hv : v.isTable = false) (h : ss.foldlM Statement.run d = some d') :
    d'.fields.get? k = some v ↔ d.fields.get? k = some v ∨
      d.header = [] ∧ .assign [] k v ∈ ss.takeWhile Statement.isAssign := by
  induction ss generalizing d with
  | nil =>
    obtain rfl := Option.some.inj h
    simp
  | cons s ss ih =>
    rw [List.foldlM_cons] at h
    obtain ⟨d₁, hs, hrest⟩ := Option.bind_eq_some_iff.1 h
    have hheader := header_of_run hs
    rw [ih hrest, get?_of_run hv hs, List.takeWhile_cons]
    cases hassign : s.isAssign with
    | true =>
      rw [hassign, if_pos rfl] at hheader
      rw [hheader, if_pos rfl, List.mem_cons, or_assoc, ← and_or_left,
        @eq_comm _ s (.assign [] k v)]
    | false =>
      rw [hassign, if_neg (by simp)] at hheader
      have hne : s ≠ .assign [] k v := by
        rintro rfl
        cases hassign
      simp [hheader, hne]

/-- **A document assigns a value to a key before its first header**, and to this key alone. -/
def Sets (text : String) (key : String) (v : Value) : Prop :=
  ∃ ss, statements text = some ss ∧ .assign [] key v ∈ ss.takeWhile Statement.isAssign

/-- **What stands at the top level of a document** and is no table is what the document assigns
before its first header. -/
theorem get?_iff_sets {text : String} {fields : Fields} (hv : v.isTable = false)
    (h : read text = some fields) : fields.get? k = some v ↔ Sets text k v := by
  unfold read at h
  obtain ⟨ss, hss, h⟩ := Option.bind_eq_some_iff.1 h
  obtain ⟨d, hd, h⟩ := Option.bind_eq_some_iff.1 h
  obtain rfl := Option.some.inj h
  rw [get?_of_runs hv hd]
  simp [Sets, hss, Fields.get?]

end SourceCoding.Toml
