import SourceCoding.Proofs.Commands
import SourceCoding.Proofs.TopLevel

/-!
# Settings from three places

The settings are put together one by one: the command line comes first, the document of the
configuration file second, the defaults last. Of the document only the values under the keys of the
settings matter. What is checked is the outcome: a value that is replaced is never looked at, and
one that comes in from the command line is. A command that goes beyond its configuration works with
one that has no issues.

## Main definitions

* `Tree.HasDocument`: a configuration file can be read as a document
* `Config.Fits`: the values under the keys of the settings have the right types
* `Overrides.merged`: the settings, each from the first place that has it
* `Invocation.performUnder`: what a command does once it has its configuration

## Main results

* `Config.load_eq_ok`: which configuration is loaded, and when
* `Config.load_congr`: of a document only the settings matter
* `Config.resolve_with_coding`: a name for the encoding is accepted or not for itself
* `settings_merged`: the settings of a command
-/

namespace SourceCoding

/-! ## The document of a configuration file -/

/-- **A configuration file can be read as a document.** Where there is no file the document is
empty. -/
def Tree.HasDocument (t : Tree) (cwd : Location) (file : Option Path) (fields : Toml.Fields) :
    Prop :=
  match file with
  | none => fields = []
  | some path => ∃ content text, t.read cwd path = .ok content ∧
    Utf8.decode? content = some text ∧ Toml.read text = some fields

/-- A configuration file is read as one document. -/
theorem Tree.HasDocument.unique {t : Tree} {cwd : Location} {file : Option Path}
    {fields fields' : Toml.Fields} (h : t.HasDocument cwd file fields)
    (h' : t.HasDocument cwd file fields') : fields = fields' := by
  cases file with
  | none => exact h.trans h'.symm
  | some path =>
    obtain ⟨content, text, hread, htext, hfields⟩ := h
    obtain ⟨content', text', hread', htext', hfields'⟩ := h'
    obtain rfl := Except.ok.inj (hread.symm.trans hread')
    obtain rfl := Option.some.inj (htext.symm.trans htext')
    exact Option.some.inj (hfields.symm.trans hfields')

namespace Toml.Fields

variable {fields : Fields} {key : String}

/-- The text under a key. -/
def text? (fields : Fields) (key : String) : Option String :=
  match fields.get? key with
  | some (.text value) => some value
  | _ => none

/-- The truth value under a key. -/
def flag? (fields : Fields) (key : String) : Option Bool :=
  match fields.get? key with
  | some (.boolean value) => some value
  | _ => none

theorem text?_eq_some {value : String} :
    fields.text? key = some value ↔ fields.get? key = some (.text value) := by
  unfold text?
  cases fields.get? key with
  | none => simp
  | some v => cases v <;> simp

theorem flag?_eq_some {value : Bool} :
    fields.flag? key = some value ↔ fields.get? key = some (.boolean value) := by
  unfold flag?
  cases fields.get? key with
  | none => simp
  | some v => cases v <;> simp

end Toml.Fields

/-! ## The settings of a document -/

namespace Config

/-- The keys of the settings that are texts. -/
def textKeys : List String := ["coding", "extension", "excluded_dir", "backup_suffix"]

/-- The key of the setting that is a truth value. -/
def flagKey : String := "fail_fast"

/-- The keys of all settings. -/
def settingKeys : List String := textKeys ++ [flagKey]

/-- **The values under the keys of the settings have the right types**, where there are any. -/
structure Fits (fields : Toml.Fields) : Prop where
  /-- Texts. -/
  texts : ∀ key ∈ textKeys, ∀ v, fields.get? key = some v → ∃ value, v = .text value
  /-- A truth value. -/
  flag : ∀ v, fields.get? flagKey = some v → ∃ value, v = .boolean value

end Config

/-- **The settings, each from the first place that has it**: the command line, the document, the
defaults. The first failure ends the pass if the command line or the document says so. -/
def Overrides.merged (o : Overrides) (fields : Toml.Fields) : Config :=
  let d : Config := {}
  { coding := o.coding.getD ((fields.text? "coding").getD d.coding)
    extension := (fields.text? "extension").getD d.extension
    excludedDir := (fields.text? "excluded_dir").getD d.excludedDir
    backupSuffix := (fields.text? "backup_suffix").getD d.backupSuffix
    failFast := o.failFast || (fields.flag? "fail_fast").getD d.failFast }

section

variable {fields fields' : Toml.Fields} {key default : String} {file : Option Path} {path : Path}
  {o : Overrides} {c : Config} {s : Session}

/-- A setting that is a text is read if what stands under its key is one. -/
theorem textSetting?_eq_some {value : String} :
    textSetting? fields key default = some value ↔
      (∀ v, fields.get? key = some v → ∃ text, v = .text text) ∧
        value = (fields.text? key).getD default := by
  unfold textSetting? Toml.Fields.text?
  cases fields.get? key with
  | none => simp [eq_comm]
  | some v => cases v <;> simp [eq_comm]

/-- A setting that is a truth value likewise. -/
theorem flagSetting?_eq_some {default value : Bool} :
    flagSetting? fields key default = some value ↔
      (∀ v, fields.get? key = some v → ∃ b, v = .boolean b) ∧
        value = (fields.flag? key).getD default := by
  unfold flagSetting? Toml.Fields.flag?
  cases fields.get? key with
  | none => simp [eq_comm]
  | some v => cases v <;> simp [eq_comm, -Bool.exists_bool]

namespace Config

/-- **A document has settings if the values under their keys have the right types**, and then they
are those values or the defaults. -/
theorem ofFields?_eq_some :
    ofFields? fields = some c ↔ Fits fields ∧ c = Overrides.merged {} fields := by
  simp only [ofFields?, Option.bind_eq_bind, Option.bind_eq_some_iff, textSetting?_eq_some,
    flagSetting?_eq_some]
  constructor
  · rintro ⟨_, ⟨hcoding, rfl⟩, _, ⟨hextension, rfl⟩, _, ⟨hdir, rfl⟩, _, ⟨hsuffix, rfl⟩,
      _, ⟨hflag, rfl⟩, hc⟩
    refine ⟨⟨?_, hflag⟩, (Option.some.inj hc).symm⟩
    simpa [textKeys] using ⟨hcoding, hextension, hdir, hsuffix⟩
  · rintro ⟨⟨htexts, hflag⟩, rfl⟩
    exact ⟨_, ⟨htexts _ (by simp [textKeys]), rfl⟩, _, ⟨htexts _ (by simp [textKeys]), rfl⟩,
      _, ⟨htexts _ (by simp [textKeys]), rfl⟩, _, ⟨htexts _ (by simp [textKeys]), rfl⟩,
      _, ⟨hflag, rfl⟩, rfl⟩

theorem readFrom_eq_ok : ((readFrom path).runIn s).1 = .ok c ↔
    ∃ fields, s.tree.HasDocument s.cwd (some path) fields ∧ ofFields? fields = some c := by
  unfold readFrom Tree.HasDocument
  rw [Act.runIn_bind, Act.runIn_query]
  cases hread : s.tree.read s.cwd path with
  | error e => simp [Except.mapError, hread]
  | ok content =>
    cases htext : Utf8.decode? content with
    | none => simp [Except.mapError, hread, htext]
    | some text =>
      cases hfields : Toml.read text with
      | none => simp [Except.mapError, hread, htext, hfields]
      | some fields =>
        cases hc : ofFields? fields <;> simp [Except.mapError, hread, htext, hfields, hc]

/-- The settings of the command line come before those of the document. -/
theorem applyTo_merged (o : Overrides) (fields : Toml.Fields) :
    o.applyTo (Overrides.merged {} fields) = o.merged fields := by
  simp [Overrides.applyTo, Overrides.merged]

/-- **A configuration is loaded if the file can be read as a document whose settings have the right
types**, and then each setting is from the first place that has it. -/
theorem load_eq_ok : ((load file o).runIn s).1 = .ok c ↔
    ∃ fields, s.tree.HasDocument s.cwd file fields ∧ Fits fields ∧ c = o.merged fields := by
  cases file with
  | none =>
    have hempty : Fits [] := ⟨by simp [Toml.Fields.get?], by simp [Toml.Fields.get?]⟩
    have hload : ((load none o).runIn s).1 = .ok (o.merged []) := by
      rw [← applyTo_merged]
      rfl
    simp [hload, Tree.HasDocument, hempty, eq_comm]
  | some path =>
    have hload : ((load (some path) o).runIn s).1 = ((readFrom path).runIn s).1.map o.applyTo := by
      show ((o.applyTo <$> readFrom path).runIn s).1 = _
      rw [Act.runIn_map]
      rcases (readFrom path).runIn s with ⟨a | c', s'⟩ <;> rfl
    have hmap {r : Except Abort Config} : r.map o.applyTo = .ok c ↔
        ∃ c', r = .ok c' ∧ o.applyTo c' = c := by
      cases r <;> simp [Except.map]
    rw [hload, hmap]
    constructor
    · rintro ⟨c', hread, rfl⟩
      obtain ⟨fields, hdocument, hfields⟩ := readFrom_eq_ok.1 hread
      obtain ⟨hfits, rfl⟩ := ofFields?_eq_some.1 hfields
      exact ⟨fields, hdocument, hfits, applyTo_merged o fields⟩
    · rintro ⟨fields, hdocument, hfits, rfl⟩
      exact ⟨_, readFrom_eq_ok.2 ⟨fields, hdocument, ofFields?_eq_some.2 ⟨hfits, rfl⟩⟩,
        applyTo_merged o fields⟩

/-! ### Only the settings of a document matter -/

theorem Fits.congr (h : ∀ key ∈ settingKeys, fields.get? key = fields'.get? key) :
    Fits fields ↔ Fits fields' := by
  have htexts : ∀ key ∈ textKeys, fields.get? key = fields'.get? key := fun key hkey =>
    h key (List.mem_append_left _ hkey)
  have hflag : fields.get? flagKey = fields'.get? flagKey := h flagKey (by simp [settingKeys])
  constructor
  · exact fun hfits => ⟨fun key hkey => htexts key hkey ▸ hfits.texts key hkey,
      hflag ▸ hfits.flag⟩
  · exact fun hfits => ⟨fun key hkey => htexts key hkey ▸ hfits.texts key hkey,
      hflag ▸ hfits.flag⟩

theorem merged_congr (o : Overrides)
    (h : ∀ key ∈ settingKeys, fields.get? key = fields'.get? key) :
    o.merged fields = o.merged fields' := by
  simp only [settingKeys, textKeys, flagKey, List.cons_append, List.nil_append, List.mem_cons,
    List.not_mem_nil, or_false, forall_eq_or_imp, forall_eq] at h
  obtain ⟨hcoding, hextension, hdir, hsuffix, hflag⟩ := h
  simp only [Overrides.merged, Toml.Fields.text?, Toml.Fields.flag?, hcoding, hextension, hdir,
    hsuffix, hflag]

/-- **Of a document only the settings matter**: two that have the same ones are loaded alike. -/
theorem load_congr {file' : Option Path} {s' : Session}
    (hdocument : s.tree.HasDocument s.cwd file fields)
    (hdocument' : s'.tree.HasDocument s'.cwd file' fields')
    (h : ∀ key ∈ settingKeys, fields.get? key = fields'.get? key) :
    ((load file o).runIn s).1.toOption = ((load file' o).runIn s').1.toOption := by
  have hok {r : Except Abort Config} {c : Config} : r.toOption = some c ↔ r = .ok c := by
    cases r <;> simp [Except.toOption]
  refine Option.ext fun c => ?_
  rw [hok, hok, load_eq_ok, load_eq_ok]
  constructor
  · rintro ⟨fields₁, hread, hfits, rfl⟩
    obtain rfl := hread.unique hdocument
    exact ⟨fields', hdocument', (Fits.congr h).1 hfits, merged_congr o h⟩
  · rintro ⟨fields₁, hread, hfits, rfl⟩
    obtain rfl := hread.unique hdocument'
    exact ⟨fields, hdocument, (Fits.congr h).2 hfits, (merged_congr o h).symm⟩

/-! ### The check of the outcome -/

theorem resolve_eq_ok : ((resolve file o).runIn s).1 = .ok c ↔
    ((load file o).runIn s).1 = .ok c ∧ c.issues = [] := by
  rw [runIn_resolve]
  cases ((load file o).runIn s).1 with
  | error a => simp
  | ok c' =>
    by_cases hc : c'.issues = []
    · simp only [hc, if_true, Except.ok.injEq]
      exact ⟨fun h => ⟨h, h ▸ hc⟩, fun h => h.1⟩
    · simp only [hc, if_false, Except.ok.injEq, reduceCtorEq, false_iff]
      exact fun h => hc (h.1 ▸ h.2)

/-- The name of the encoding is checked for itself. -/
theorem issues_with_coding (name : String) :
    { c with coding := name }.issues = [] ↔
      codingIssues name = [] ∧ { c with coding := ({} : Config).coding }.Valid := by
  have hdefault : codingIssues ({} : Config).coding = [] := by decide
  simp [Valid, issues, hdefault]

/-- **A name for the encoding on the command line is accepted or not for itself**, whatever name
the document has. -/
theorem resolve_with_coding (hdocument : s.tree.HasDocument s.cwd file fields)
    (hfits : Fits fields) (name : String) :
    (∃ c, ((resolve file { o with coding := some name }).runIn s).1 = .ok c) ↔
      codingIssues name = [] ∧ { o.merged fields with coding := ({} : Config).coding }.Valid := by
  have hload : ((load file { o with coding := some name }).runIn s).1 =
      .ok { o.merged fields with coding := name } := load_eq_ok.2 ⟨fields, hdocument, hfits, rfl⟩
  rw [← issues_with_coding]
  constructor
  · rintro ⟨c, hc⟩
    obtain ⟨hc, hissues⟩ := resolve_eq_ok.1 hc
    rw [Except.ok.inj (hload.symm.trans hc)]
    exact hissues
  · exact fun hissues => ⟨_, resolve_eq_ok.2 ⟨hload, hissues⟩⟩

end Config

end

/-! ## A command and its configuration -/

namespace Invocation

/-- **What a command does once it has its configuration**: it tests itself and makes a pass. -/
def performUnder (i : Invocation) (c : Config) (scratch : Path) (styled : Bool) :
    Act Abort Nat := do
  if !i.skipSelfTest then
    let _ ← selfTest scratch c
  match i.directory with
  | none =>
    emit .directoryMissing
    pure 0
  | some root =>
    let summary ← Pass.fix ⟨c, i.mode, []⟩ styled i.report root
    pure (if summary.isSuccess then 0 else 1)

theorem perform_eq (i : Invocation) (scratch : Path) (styled : Bool) :
    i.perform scratch styled =
      Config.resolve i.configFile i.overrides >>= fun c => i.performUnder c scratch styled :=
  rfl

/-- **A command goes beyond its configuration only if that has no issues.** -/
theorem perform_cases (i : Invocation) (scratch : Path) (styled : Bool) (s : Session) :
    (∃ a, ((Config.resolve i.configFile i.overrides).runIn s).1 = .error a ∧
      (i.perform scratch styled).runIn s = (.error a, s)) ∨
    ∃ c, ((Config.resolve i.configFile i.overrides).runIn s).1 = .ok c ∧ c.issues = [] ∧
      (i.perform scratch styled).runIn s =
        (i.performUnder c scratch styled).runIn (s.tell [.configResolved c]) := by
  rw [perform_eq, Act.runIn_bind, Config.runIn_resolve]
  cases ((Config.load i.configFile i.overrides).runIn s).1 with
  | error a => exact .inl ⟨a, rfl, rfl⟩
  | ok c =>
    by_cases hc : c.issues = []
    · exact .inr ⟨c, by simp [hc], hc, by simp [hc]⟩
    · exact .inl ⟨.plain c.failure, by simp [hc], by simp [hc]⟩

end Invocation

/-! ## The settings of a command -/

/-- **The settings of a command.** A configuration is loaded if the file can be read as a document
whose settings have the right types, and then each setting is from the command line, the document
or the defaults, in this order. Of the document only the settings matter, and they are what is set
before the first header. A configuration that is loaded is resolved if it has no issues as a whole;
otherwise its issues are the failure. In particular a name for the encoding on the command line is
accepted or not for itself, whatever name the document has. And no command tests itself or makes a
pass with a configuration that has an issue. -/
theorem settings_merged (file : Option Path) (o : Overrides) (s : Session) :
    (∀ c, ((Config.load file o).runIn s).1 = .ok c ↔
      ∃ fields, s.tree.HasDocument s.cwd file fields ∧ Config.Fits fields ∧ c = o.merged fields) ∧
    (∀ fields, s.tree.HasDocument s.cwd file fields →
      ∀ file' s' fields', s'.tree.HasDocument s'.cwd file' fields' →
        (∀ key ∈ Config.settingKeys, fields.get? key = fields'.get? key) →
        ((Config.load file o).runIn s).1.toOption = ((Config.load file' o).runIn s').1.toOption) ∧
    (∀ text fields, Toml.read text = some fields → ∀ key,
      (∀ v, v.isTable = false → (fields.get? key = some v ↔ Toml.Sets text key v)) ∧
      (∀ value, fields.text? key = some value ↔ Toml.Sets text key (.text value)) ∧
      ∀ value, fields.flag? key = some value ↔ Toml.Sets text key (.boolean value)) ∧
    (∀ c, ((Config.resolve file o).runIn s).1 = .ok c ↔
      ((Config.load file o).runIn s).1 = .ok c ∧ c.issues = []) ∧
    (∀ c, ((Config.load file o).runIn s).1 = .ok c → c.issues ≠ [] →
      ((Config.resolve file o).runIn s).1 =
        .error (.plain (.config (c.issues.map Issue.message)))) ∧
    (∀ a, ((Config.load file o).runIn s).1 = .error a →
      ((Config.resolve file o).runIn s).1 = .error a) ∧
    (∀ fields, s.tree.HasDocument s.cwd file fields → Config.Fits fields → ∀ name,
      (∃ c, ((Config.resolve file { o with coding := some name }).runIn s).1 = .ok c) ↔
        codingIssues name = [] ∧
          { o.merged fields with coding := ({} : Config).coding }.Valid) ∧
    ∀ (i : Invocation) (scratch : Path) (styled : Bool),
      (∃ a, ((Config.resolve i.configFile i.overrides).runIn s).1 = .error a ∧
        (i.perform scratch styled).runIn s = (.error a, s)) ∨
      ∃ c, ((Config.resolve i.configFile i.overrides).runIn s).1 = .ok c ∧ c.issues = [] ∧
        (i.perform scratch styled).runIn s =
          (i.performUnder c scratch styled).runIn (s.tell [.configResolved c]) := by
  refine ⟨fun c => Config.load_eq_ok, fun fields hdocument file' s' fields' hdocument' h =>
      Config.load_congr hdocument hdocument' h, fun text fields hread key =>
      ⟨fun v hv => Toml.get?_iff_sets hv hread, fun value => ?_, fun value => ?_⟩,
    fun c => Config.resolve_eq_ok, fun c hload hc => ?_, fun a hload => ?_,
    fun fields hdocument hfits name => Config.resolve_with_coding hdocument hfits name,
    fun i scratch styled => i.perform_cases scratch styled s⟩
  · rw [Toml.Fields.text?_eq_some]
    exact Toml.get?_iff_sets rfl hread
  · rw [Toml.Fields.flag?_eq_some]
    exact Toml.get?_iff_sets rfl hread
  · simp [Config.runIn_resolve, hload, hc, Config.failure]
  · simp [Config.runIn_resolve, hload]

/-- Two documents that set the same are loaded alike; the name of one is replaced by a bad one, and
the bad name of another by a good one. -/
theorem settings_merged_of_documents :
    let plain := "coding = 'latin-1'\n"
    let quoted := "x.coding = 1\n\"coding\" = \"latin\\u002D1\" # coding\n[y]\nfail_fast = 1\n"
    let bad := "fail_fast = true\ncoding = 'ascii'\n"
    let t := ((Tree.empty.put [Bytes.ofString "plain"] (.file (Bytes.ofString plain))).put
      [Bytes.ofString "quoted"] (.file (Bytes.ofString quoted))).put
      [Bytes.ofString "bad"] (.file (Bytes.ofString bad))
    let s : Session := ⟨t, [], []⟩
    let result (file : String) (o : Overrides) :=
      ((Config.resolve (some (Path.ofString file)) o).runIn s).1
    ((Config.load (some (Path.ofString "/plain")) {}).runIn s).1.toOption =
      ((Config.load (some (Path.ofString "/quoted")) {}).runIn s).1.toOption ∧
    (¬ ∃ c, result "/quoted" { coding := some "ascii" } = .ok c) ∧
    (∃ c, result "/bad" { coding := some "latin-1" } = .ok c) ∧
    result "/bad" {} = .error (.plain (.config [(Issue.unrecognised "ascii").message])) := by
  intro plain quoted bad t s result
  have hplain : (Toml.read plain).map (fun f => (f.text? "coding",
      ["extension", "excluded_dir", "backup_suffix", "fail_fast"].all fun k =>
        (f.get? k).isNone)) = some (some "latin-1", true) := by decide +kernel
  have hquoted : (Toml.read quoted).map (fun f => (f.text? "coding",
      ["extension", "excluded_dir", "backup_suffix", "fail_fast"].all fun k =>
        (f.get? k).isNone)) = some (some "latin-1", true) := by decide +kernel
  have hbad : (Toml.read bad).bind Config.ofFields? =
      some { coding := "ascii", failFast := true } := by decide +kernel
  obtain ⟨f₁, hread₁, hf₁⟩ := Option.map_eq_some_iff.1 hplain
  obtain ⟨f₂, hread₂, hf₂⟩ := Option.map_eq_some_iff.1 hquoted
  obtain ⟨f₃, hread₃, hf₃⟩ := Option.bind_eq_some_iff.1 hbad
  simp only [Prod.mk.injEq, List.all_cons, List.all_nil, Bool.and_true, Bool.and_eq_true,
    Option.isNone_iff_eq_none, Toml.Fields.text?_eq_some] at hf₁ hf₂
  obtain ⟨hfits₃, hmerged₃⟩ := Config.ofFields?_eq_some.1 hf₃
  have hdocument₁ : s.tree.HasDocument s.cwd (some (Path.ofString "/plain")) f₁ :=
    ⟨Bytes.ofString plain, plain, by decide +kernel, by decide +kernel, hread₁⟩
  have hdocument₂ : s.tree.HasDocument s.cwd (some (Path.ofString "/quoted")) f₂ :=
    ⟨Bytes.ofString quoted, quoted, by decide +kernel, by decide +kernel, hread₂⟩
  have hdocument₃ : s.tree.HasDocument s.cwd (some (Path.ofString "/bad")) f₃ :=
    ⟨Bytes.ofString bad, bad, by decide +kernel, by decide +kernel, hread₃⟩
  have hfits₂ : Config.Fits f₂ :=
    ⟨by simp [Config.textKeys, hf₂], by simp [Config.flagKey, hf₂]⟩
  obtain ⟨-, halike, -⟩ := settings_merged (some (Path.ofString "/plain")) {} s
  obtain ⟨-, -, -, -, -, -, hquotedCoding, -⟩ :=
    settings_merged (some (Path.ofString "/quoted")) {} s
  obtain ⟨hload, -, -, -, hissues, -, hbadCoding, -⟩ :=
    settings_merged (some (Path.ofString "/bad")) {} s
  refine ⟨halike f₁ hdocument₁ _ s f₂ hdocument₂ ?_, ?_, ?_, ?_⟩
  · simp [Config.settingKeys, Config.textKeys, Config.flagKey, hf₁, hf₂]
  · intro h
    exact absurd ((hquotedCoding f₂ hdocument₂ hfits₂ "ascii").1 h).1 (by decide +kernel)
  · refine (hbadCoding f₃ hdocument₃ hfits₃ "latin-1").2 ⟨by decide +kernel, ?_⟩
    rw [← hmerged₃]
    decide +kernel
  · exact hissues _ ((hload _).2 ⟨f₃, hdocument₃, hfits₃, hmerged₃⟩) (by decide +kernel)

end SourceCoding
