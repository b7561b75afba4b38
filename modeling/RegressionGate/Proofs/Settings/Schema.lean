import RegressionGate.Proofs.Binary64.Rational
import RegressionGate.Proofs.Settings.Layers
import RegressionGate.Proofs.Toml.Content
import RegressionGate.Settings.File

/-! The schema of settings files. A document is a settings file when each of its top-level keys is
the key of a setting and stands before a value that the setting takes. It then sets just the
settings whose keys are there, to those values, wherever and however they are written; and any other
text is refused as a whole. -/

namespace RegressionGate

open Toml (Datum)

def Setting.key : Setting → String
  | threshold => "threshold"
  | baseline => "baseline"
  | current => "current"
  | build => "target_dir"
  | format => "format"
  | strict => "strict"

def ReportFormat.name : ReportFormat → String
  | text => "text"
  | json => "json"

/-- Which values of a document a setting takes, and as what. A threshold may be an integer, which
stands for the number nearest to it, and a format may be written as a table with its name as the
only key and nothing in it. -/
def Setting.Takes : (f : Setting) → Datum → f.Value → Prop
  | threshold => fun d (x : Binary64) =>
    d = .scalar (.float x) ∨
      ∃ n : Int, d = .scalar (.integer n) ∧ x = Binary64.nearest (decide (n < 0)) n
  | baseline | current => fun d (label : String) => d = .scalar (.string label)
  | build => fun d (path : Path) => ∃ text, d = .scalar (.string text) ∧ path = .ofString text
  | format => fun d (r : ReportFormat) =>
    d = .scalar (.string r.name) ∨
      ∃ content, d = .table [(r.name, content)] ∧ (content = .table [] ∨ content = .array [])
  | strict => fun d (b : Bool) => d = .scalar (.boolean b)

/-- Whether a document consists of settings. -/
def FitsSchema (content : List (String × Datum)) : Prop :=
  ∀ entry ∈ content, ∃ f v, entry.1 = Setting.key f ∧ f.Takes entry.2 v

/-- Whether a document gives a setting a value. -/
def GivesSetting (content : List (String × Datum)) (f : Setting) (v : f.Value) : Prop :=
  ∃ d, (f.key, d) ∈ content ∧ f.Takes d v

variable {f g : Setting} {name : String} {node : Toml.Node} {o o' : Overrides}
  {r : ReportFormat}

namespace Settings

/-! ### Values -/

theorem ofInt_eq_nearest (n : Int) :
    (if n < 0 then -Binary64.ofNat n.natAbs else Binary64.ofNat n.natAbs) =
      Binary64.nearest (decide (n < 0)) n := by
  by_cases h : n < 0
  · rw [if_pos h, decide_eq_true h]
    rfl
  · rw [if_neg h, decide_eq_false h]
    rfl

theorem readThreshold_eq_ok_iff {x : Binary64} :
    readThreshold node = .ok x ↔ Setting.threshold.Takes node.datum x := by
  constructor
  · intro h
    rw [readThreshold.eq_def] at h
    split at h
    · obtain rfl := Except.ok.inj h
      exact .inl rfl
    · obtain rfl := Except.ok.inj h
      exact .inr ⟨_, rfl, ofInt_eq_nearest _⟩
    · contradiction
  · rintro (hfloat | ⟨n, hinteger, rfl⟩)
    · obtain ⟨span, rfl⟩ := Toml.datum_eq_scalar_iff.mp hfloat
      rfl
    · obtain ⟨span, rfl⟩ := Toml.datum_eq_scalar_iff.mp hinteger
      exact congrArg _ (ofInt_eq_nearest n)

theorem readString_eq_ok_iff {expected text : String} :
    readString expected node = .ok text ↔ node.datum = .scalar (.string text) := by
  rw [Toml.datum_eq_scalar_iff, readString.eq_def]
  constructor
  · intro h
    split at h
    · obtain rfl := Except.ok.inj h
      exact ⟨_, rfl⟩
    · contradiction
  · rintro ⟨span, rfl⟩
    rfl

theorem readBoolean_eq_ok_iff {b : Bool} :
    readBoolean node = .ok b ↔ node.datum = .scalar (.boolean b) := by
  rw [Toml.datum_eq_scalar_iff, readBoolean.eq_def]
  constructor
  · intro h
    split at h
    · obtain rfl := Except.ok.inj h
      exact ⟨_, rfl⟩
    · contradiction
  · rintro ⟨span, rfl⟩
    rfl

theorem formatOf?_eq_some_iff : formatOf? name = some r ↔ name = r.name := by
  rw [formatOf?]
  constructor
  · intro h
    split at h
    · rename_i hname
      obtain rfl := Option.some.inj h
      exact hname
    · split at h
      · rename_i hname
        obtain rfl := Option.some.inj h
        exact hname
      · contradiction
  · rintro rfl
    cases r <;> rfl

theorem checkEmpty_eq_ok_iff :
    checkEmpty node = .ok () ↔ node.datum = .table [] ∨ node.datum = .array [] := by
  rw [Toml.datum_eq_table_nil_iff, Toml.datum_eq_array_nil_iff]
  constructor
  · intro h
    rw [checkEmpty.eq_def] at h
    split at h
    · exact .inr (.inl ⟨_, rfl⟩)
    · exact .inl ⟨_, _, _, rfl⟩
    · exact .inr (.inr ⟨_, rfl⟩)
    all_goals contradiction
  · rintro (⟨isInline, origin, span, rfl⟩ | ⟨span, rfl⟩ | ⟨span, rfl⟩)
    all_goals rfl

theorem readFormat_eq_ok_iff : readFormat node = .ok r ↔ Setting.format.Takes node.datum r := by
  constructor
  · intro h
    rw [readFormat.eq_def] at h
    split at h
    · split at h
      · rename_i hformat
        obtain rfl := Except.ok.inj h
        obtain rfl := formatOf?_eq_some_iff.mp hformat
        exact .inl rfl
      · contradiction
    · contradiction
    · rename_i key below
      split at h
      · rename_i hformat
        cases hempty : checkEmpty below with
        | error e =>
          rw [hempty] at h
          contradiction
        | ok u =>
          rw [hempty] at h
          obtain rfl := Except.ok.inj h
          have htable := congrArg (fun name => Datum.table [(name, below.datum)])
            (formatOf?_eq_some_iff.mp hformat)
          exact .inr ⟨below.datum, htable, checkEmpty_eq_ok_iff.mp hempty⟩
      · contradiction
    all_goals contradiction
  · rintro (hname | ⟨content, htable, hempty⟩)
    · obtain ⟨span, rfl⟩ := Toml.datum_eq_scalar_iff.mp hname
      rw [readFormat, formatOf?_eq_some_iff.mpr rfl]
    · obtain ⟨isInline, origin, span, key, below, rfl, hkey, rfl⟩ :=
        Toml.datum_eq_table_singleton_iff.mp htable
      rw [readFormat, formatOf?_eq_some_iff.mpr hkey]
      dsimp only
      rw [checkEmpty_eq_ok_iff.mpr hempty]
      rfl

end Settings

theorem exists_of_map_eq_ok {ε α β : Type} {x : Except ε α} {g : α → β} {b : β}
    (h : g <$> x = .ok b) : ∃ a, x = .ok a ∧ b = g a := by
  cases x with
  | error e => contradiction
  | ok a => exact ⟨a, rfl, (Except.ok.inj h).symm⟩

/-- The value of a setting that stands at its key. -/
def Setting.read : (f : Setting) → Toml.Node → Except Settings.SchemaFault f.Value
  | threshold => Settings.readThreshold
  | baseline | current => Settings.readString "a string"
  | build => fun node => Path.ofString <$> Settings.readString "path string" node
  | format => Settings.readFormat
  | strict => Settings.readBoolean

theorem Setting.read_eq_ok_iff {v : f.Value} : f.read node = .ok v ↔ f.Takes node.datum v := by
  cases f with
  | threshold => exact Settings.readThreshold_eq_ok_iff
  | baseline | current => exact Settings.readString_eq_ok_iff
  | build =>
    constructor
    · intro h
      obtain ⟨text, htext, hv⟩ := exists_of_map_eq_ok h
      exact ⟨text, Settings.readString_eq_ok_iff.mp htext, hv⟩
    · rintro ⟨text, htext, rfl⟩
      exact congrArg (Path.ofString <$> ·) (Settings.readString_eq_ok_iff.mpr htext)
  | format => exact Settings.readFormat_eq_ok_iff
  | strict => exact Settings.readBoolean_eq_ok_iff

theorem Setting.Takes.unique {v w : f.Value} (hv : f.Takes node.datum v)
    (hw : f.Takes node.datum w) : v = w :=
  Except.ok.inj ((read_eq_ok_iff.mpr hv).symm.trans (read_eq_ok_iff.mpr hw))

/-- The overrides with a value for one more setting, or another value for it. -/
def Overrides.set (o : Overrides) : (f : Setting) → f.Value → Overrides
  | .threshold => fun x : Binary64 => { o with threshold := some x }
  | .baseline => fun label : String => { o with baseline := some label }
  | .current => fun label : String => { o with current := some label }
  | .build => fun path : Path => { o with build := some path }
  | .format => fun r : ReportFormat => { o with format := some r }
  | .strict => fun b : Bool => { o with strict := some b }

theorem Overrides.layer_set_self (o : Overrides) (v : f.Value) : (o.set f v).layer f = some v := by
  cases f <;> rfl

theorem Overrides.layer_set_of_ne (o : Overrides) (v : f.Value) (h : g ≠ f) :
    (o.set f v).layer g = o.layer g := by
  cases f <;> cases g <;> first | rfl | contradiction

theorem Overrides.ext_layer (h : ∀ f, o.layer f = o'.layer f) : o = o' := by
  obtain ⟨threshold, baseline, current, build, format, strict⟩ := o
  obtain rfl : threshold = o'.threshold := h .threshold
  obtain rfl : baseline = o'.baseline := h .baseline
  obtain rfl : current = o'.current := h .current
  obtain rfl : build = o'.build := h .build
  obtain rfl : format = o'.format := h .format
  obtain rfl : strict = o'.strict := h .strict
  rfl

theorem Setting.key_inj (h : f.key = g.key) : f = g := by
  have hinj : ∀ f g : Setting, f.key = g.key → f = g := by
    intro f g
    cases f <;> cases g <;> decide
  exact hinj f g h

namespace Settings

/-! ### Documents -/

/-- An entry at the key of a setting sets it. -/
theorem readEntry_key (o : Overrides) (f : Setting) (node : Toml.Node) :
    readEntry o f.key node = o.set f <$> f.read node := by
  cases f <;> simp only [readEntry, Setting.key, Setting.read]
  case threshold => cases readThreshold node <;> rfl
  case baseline => cases readString "a string" node <;> rfl
  case current => cases readString "a string" node <;> rfl
  case build => cases readString "path string" node <;> rfl
  case format => cases readFormat node <;> rfl
  case strict => cases readBoolean node <;> rfl

theorem readEntry_of_ne_key (o : Overrides) (node : Toml.Node) (h : ∀ f : Setting, name ≠ f.key) :
    readEntry o name node = .error ⟨.unknownKey name, none⟩ := by
  have hthreshold : name ≠ "threshold" := h .threshold
  have hbaseline : name ≠ "baseline" := h .baseline
  have hcurrent : name ≠ "current" := h .current
  have hbuild : name ≠ "target_dir" := h .build
  have hformat : name ≠ "format" := h .format
  have hstrict : name ≠ "strict" := h .strict
  simp only [readEntry, if_neg, hthreshold, hbaseline, hcurrent, hbuild, hformat, hstrict,
    not_false_eq_true]

theorem readEntry_takes {v : f.Value} (o : Overrides) (hname : name = f.key)
    (htakes : f.Takes node.datum v) : readEntry o name node = .ok (o.set f v) := by
  rw [hname, readEntry_key, Setting.read_eq_ok_iff.mpr htakes]
  rfl

/-- There is nothing else that an entry can do. -/
theorem exists_takes_of_readEntry (h : readEntry o name node = .ok o') :
    ∃ f v, name = Setting.key f ∧ f.Takes node.datum v ∧ o' = o.set f v := by
  by_cases hname : ∀ f : Setting, name ≠ f.key
  · rw [readEntry_of_ne_key o node hname] at h
    contradiction
  · obtain ⟨f, hf⟩ := not_forall.mp hname
    obtain rfl := not_not.mp hf
    rw [readEntry_key] at h
    obtain ⟨v, hread, ho'⟩ := exists_of_map_eq_ok h
    exact ⟨f, v, rfl, Setting.read_eq_ok_iff.mp hread, ho'⟩

/-- The overrides that entries come to when they are set one after another, each at the key of a
setting and with a value that it takes. -/
inductive SetsAll : Overrides → Toml.Entries → Overrides → Prop
  | nil (o : Overrides) : SetsAll o [] o
  | cons {o o' : Overrides} {e : Toml.Key × Toml.Node} {es : Toml.Entries} {f : Setting}
      {v : f.Value} (key : e.1.name = f.key) (takes : f.Takes e.2.datum v)
      (rest : SetsAll (o.set f v) es o') : SetsAll o (e :: es) o'

variable {document : List Char} {entries : Toml.Entries}

theorem readEntries_eq_ok_iff : readEntries document entries = .ok o' ↔ SetsAll {} entries o' := by
  rw [readEntries]
  generalize ({} : Overrides) = o
  induction entries generalizing o with
  | nil =>
    constructor
    · intro h
      obtain rfl := Except.ok.inj h
      exact .nil o
    · rintro ⟨⟩
      rfl
  | cons e entries ih =>
    obtain ⟨key, node⟩ := e
    rw [List.foldlM_cons]
    dsimp only
    constructor
    · intro h
      cases hfirst : readEntry o key.name node with
      | error e =>
        rw [hfirst] at h
        contradiction
      | ok o₁ =>
        rw [hfirst] at h
        obtain ⟨f, v, hkey, htakes, rfl⟩ := exists_takes_of_readEntry hfirst
        exact .cons hkey htakes ((ih _).mp h)
    · rintro (_ | ⟨hkey, htakes, hrest⟩)
      rw [readEntry_takes o hkey htakes]
      exact (ih _).mpr hrest

theorem SetsAll.fits (h : SetsAll o entries o') : FitsSchema (Toml.Node.content entries) := by
  induction h with
  | nil => exact fun _ => nofun
  | cons key takes _ ih => exact List.forall_mem_cons.mpr ⟨⟨_, _, key, takes⟩, ih⟩

theorem exists_setsAll (h : FitsSchema (Toml.Node.content entries)) (o : Overrides) :
    ∃ o', SetsAll o entries o' := by
  induction entries generalizing o with
  | nil => exact ⟨o, .nil o⟩
  | cons e entries ih =>
    obtain ⟨⟨f, v, key, takes⟩, hrest⟩ := List.forall_mem_cons.mp h
    obtain ⟨o', rest⟩ := ih hrest (o.set f v)
    exact ⟨o', .cons key takes rest⟩

theorem SetsAll.layer_of_notMem (h : SetsAll o entries o') (hkey : f.key ∉ Toml.names entries) :
    o'.layer f = o.layer f := by
  induction h with
  | nil o => rfl
  | cons key takes _ ih =>
    obtain ⟨hne, hrest⟩ := not_or.mp (List.mem_cons.not.mp hkey)
    rw [ih hrest, Overrides.layer_set_of_ne]
    rintro rfl
    exact hne key.symm

/-- Where no key is there twice, what stands at the key of a setting is its value in the end. -/
theorem SetsAll.layer_of_gives {v : f.Value} (h : SetsAll o entries o')
    (hdistinct : Toml.DistinctKeys entries)
    (hgives : GivesSetting (Toml.Node.content entries) f v) : o'.layer f = some v := by
  obtain ⟨d, hmem, htakes⟩ := hgives
  induction h with
  | nil o => contradiction
  | cons key takes rest ih =>
    obtain ⟨hnotMem, hes⟩ := List.nodup_cons.mp hdistinct
    rcases List.mem_cons.mp hmem with heq | hmem
    -- The entry that sets the setting: none behind it has its key.
    · obtain ⟨hkey, rfl⟩ := Prod.mk.inj heq
      obtain rfl := Setting.key_inj (hkey.trans key)
      rw [rest.layer_of_notMem (hkey ▸ hnotMem), Overrides.layer_set_self, takes.unique htakes]
    · exact ih hes hmem

theorem SetsAll.layer_eq_some_iff {v : f.Value} (h : SetsAll {} entries o')
    (hdistinct : Toml.DistinctKeys entries) :
    o'.layer f = some v ↔ GivesSetting (Toml.Node.content entries) f v := by
  constructor
  · intro hv
    by_cases hkey : f.key ∈ Toml.names entries
    · obtain ⟨d, hmem⟩ := Toml.mem_names_iff.mp hkey
      obtain ⟨g, w, hname, htakes⟩ := h.fits _ hmem
      obtain rfl := Setting.key_inj hname
      have hw := h.layer_of_gives hdistinct ⟨d, hmem, htakes⟩
      obtain rfl := Option.some.inj (hv.symm.trans hw)
      exact ⟨d, hmem, htakes⟩
    · rw [h.layer_of_notMem hkey] at hv
      cases f <;> contradiction
  · exact h.layer_of_gives hdistinct

/-! ### Texts -/

variable {text text' : String} {content content' : List (String × Datum)}

/-- The settings with those of a settings file on top of them, if the text is one. -/
def applyText (s : Settings) (text : String) : Settings :=
  match ofText text with
  | .ok o => s.override o
  | .error _ => s

theorem ofText_eq_ok_iff : ofText text = .ok o ↔
    ∃ entries, Toml.parse? text.toList = some entries ∧ SetsAll {} entries o := by
  rw [ofText]
  cases Toml.parse? text.toList with
  | none => simp
  | some entries => simp [readEntries_eq_ok_iff]

theorem ofText_accepted_iff : (∃ o, ofText text = .ok o) ↔
    ∃ content, Toml.content? text = some content ∧ FitsSchema content := by
  simp only [ofText_eq_ok_iff, Toml.content?, Option.map_eq_some_iff]
  constructor
  · rintro ⟨o, entries, hparse, hsets⟩
    exact ⟨_, ⟨entries, hparse, rfl⟩, hsets.fits⟩
  · rintro ⟨_, ⟨entries, hparse, rfl⟩, hfits⟩
    obtain ⟨o, hsets⟩ := exists_setsAll hfits {}
    exact ⟨o, entries, hparse, hsets⟩

theorem layer_ofText (haccepted : ofText text = .ok o)
    (hcontent : Toml.content? text = some content) (f : Setting) (v : f.Value) :
    o.layer f = some v ↔ GivesSetting content f v := by
  obtain ⟨entries, hparse, hsets⟩ := ofText_eq_ok_iff.mp haccepted
  obtain rfl : Toml.Node.content entries = content := by
    rw [Toml.content?, hparse] at hcontent
    exact Option.some.inj hcontent
  exact hsets.layer_eq_some_iff (Toml.distinctKeys_of_parse? hparse)

theorem isSome_layer_ofText (haccepted : ofText text = .ok o)
    (hcontent : Toml.content? text = some content) (f : Setting) :
    (o.layer f).isSome ↔ f.key ∈ content.map Prod.fst := by
  simp only [Option.isSome_iff_exists, layer_ofText haccepted hcontent, List.mem_map]
  obtain ⟨content', hcontent', hfits⟩ := ofText_accepted_iff.mp ⟨o, haccepted⟩
  obtain rfl := Option.some.inj (hcontent.symm.trans hcontent')
  constructor
  · rintro ⟨v, d, hmem, -⟩
    exact ⟨_, hmem, rfl⟩
  · rintro ⟨⟨name, d⟩, hmem, hname⟩
    obtain ⟨g, v, hkey, htakes⟩ := hfits _ hmem
    obtain rfl := Setting.key_inj (hkey.symm.trans hname)
    exact ⟨v, d, hname ▸ hmem, htakes⟩

/-- The order in which a document says what it says is of no account. -/
theorem ofText_of_perm (hcontent : Toml.content? text = some content)
    (hcontent' : Toml.content? text' = some content') (hperm : content'.Perm content)
    (haccepted : ofText text = .ok o) : ofText text' = .ok o := by
  obtain ⟨_, h, hfits⟩ := ofText_accepted_iff.mp ⟨o, haccepted⟩
  obtain rfl := Option.some.inj (hcontent.symm.trans h)
  have hfits' : FitsSchema content' := fun e he => hfits e (hperm.mem_iff.mp he)
  obtain ⟨o', haccepted'⟩ := ofText_accepted_iff.mpr ⟨content', hcontent', hfits'⟩
  have hlayer (f : Setting) : o'.layer f = o.layer f := by
    refine Option.ext fun v => ?_
    rw [layer_ofText haccepted' hcontent', layer_ofText haccepted hcontent]
    simp only [GivesSetting, hperm.mem_iff]
  rw [haccepted', Overrides.ext_layer hlayer]

/-- A text is a settings file exactly when it is a TOML document that fits the schema, and any other
is refused. A setting then has the value that stands at its key, and none when its key is not there.
A document that says the same in another order or layout comes to the same overrides. Among texts
applied one after another, one that is refused might as well not be there. -/
theorem ofText_schema (text : String) :
    ((∃ o, ofText text = .ok o) ↔
      ∃ content, Toml.content? text = some content ∧ FitsSchema content) ∧
    ((¬∃ content, Toml.content? text = some content ∧ FitsSchema content) →
      ∃ e, ofText text = .error e) ∧
    (∀ o content, ofText text = .ok o → Toml.content? text = some content → ∀ f : Setting,
      (∀ v, o.layer f = some v ↔ GivesSetting content f v) ∧
        ((o.layer f).isSome ↔ f.key ∈ content.map Prod.fst)) ∧
    (∀ text' content content', Toml.content? text = some content →
      Toml.content? text' = some content' → content'.Perm content →
        ∀ o, ofText text' = .ok o ↔ ofText text = .ok o) ∧
    ∀ (s : Settings) (before after : List String), (¬∃ o, ofText text = .ok o) →
      (before ++ text :: after).foldl applyText s = (before ++ after).foldl applyText s := by
  refine ⟨ofText_accepted_iff, fun hnot => ?_, fun o content ho hcontent f => ?_,
    fun text' content content' hcontent hcontent' hperm o => ?_, fun s before after hnot => ?_⟩
  · rw [← ofText_accepted_iff] at hnot
    cases h : ofText text with
    | error e => exact ⟨e, rfl⟩
    | ok o => exact (hnot ⟨o, h⟩).elim
  · exact ⟨layer_ofText ho hcontent f, isSome_layer_ofText ho hcontent f⟩
  · exact ⟨ofText_of_perm hcontent' hcontent hperm.symm, ofText_of_perm hcontent hcontent' hperm⟩
  · rw [List.foldl_append, List.foldl_append, List.foldl_cons]
    congr 1
    rw [applyText]
    cases h : ofText text with
    | error e => rfl
    | ok o => exact (hnot ⟨o, h⟩).elim

/-- Two documents that say the same, and one with a misspelt key, which is refused with all that it
says. -/
theorem ofText_schema_rearranged :
    let spread := "format.json = \x7b\x7d # for machines\n\"threshold\" = 0x7\nstrict = true\n"
    let dense := "strict=true\nthreshold=0b111\n[format]\njson=\x7b\x7d"
    let misspelt := "baseline = 'x'\nstrictt = true"
    (∃ o, ofText spread = .ok o ∧ ofText dense = .ok o ∧
      o.layer .threshold = some (7 : Binary64) ∧ o.layer .format = some ReportFormat.json ∧
      o.layer .strict = some true ∧ o.layer .baseline = none) ∧
    (∃ e, ofText misspelt = .error e) ∧
    [spread, misspelt].foldl applyText {} = [spread].foldl applyText {} := by
  intro spread dense misspelt
  have hspread : Toml.content? spread = some [("format", .table [("json", .table [])]),
      ("threshold", .scalar (.integer 7)), ("strict", .scalar (.boolean true))] := by decide +kernel
  have hdense : Toml.content? dense = some [("strict", .scalar (.boolean true)),
      ("threshold", .scalar (.integer 7)), ("format", .table [("json", .table [])])] := by
    decide +kernel
  have hmisspelt : Toml.content? misspelt =
      some [("baseline", .scalar (.string "x")), ("strictt", .scalar (.boolean true))] := by
    decide +kernel
  have hjson : Setting.format.Takes (.table [("json", .table [])]) ReportFormat.json :=
    .inr ⟨_, rfl, .inl rfl⟩
  have hseven : Setting.threshold.Takes (.scalar (.integer 7)) (7 : Binary64) :=
    .inr ⟨7, rfl, by decide +kernel⟩
  have hstrict : Setting.strict.Takes (.scalar (.boolean true)) true := rfl
  obtain ⟨haccepted, -, hlayer, hsame, -⟩ := ofText_schema spread
  obtain ⟨o, ho⟩ := haccepted.mpr ⟨_, hspread, by
    intro e he
    simp only [List.mem_cons, List.not_mem_nil, or_false] at he
    obtain rfl | rfl | rfl := he
    · exact ⟨.format, _, rfl, hjson⟩
    · exact ⟨.threshold, _, rfl, hseven⟩
    · exact ⟨.strict, _, rfl, hstrict⟩⟩
  have hrearranged := (hsame dense _ _ hspread hdense (List.reverse_perm _).symm o).mpr ho
  have hvalues := hlayer o _ ho hspread
  have hbaseline : ¬(o.layer .baseline).isSome := (hvalues .baseline).2.not.mpr (by decide)
  obtain ⟨hiff, hrefused, -, -, hwithout⟩ := ofText_schema misspelt
  have hnot : ¬∃ content, Toml.content? misspelt = some content ∧ FitsSchema content := by
    rintro ⟨content, hcontent, hfits⟩
    obtain rfl := Option.some.inj (hmisspelt.symm.trans hcontent)
    obtain ⟨f, -, hkey, -⟩ := hfits ("strictt", .scalar (.boolean true)) (by simp)
    cases f <;> contradiction
  refine ⟨⟨o, ho, hrearranged, ?_, ?_, ?_, Option.not_isSome_iff_eq_none.mp hbaseline⟩,
    hrefused hnot, hwithout {} [spread] [] (hiff.not.mpr hnot)⟩
  · exact ((hvalues .threshold).1 _).mpr ⟨_, by simp [Setting.key], hseven⟩
  · exact ((hvalues .format).1 _).mpr ⟨_, by simp [Setting.key], hjson⟩
  · exact ((hvalues .strict).1 _).mpr ⟨_, by simp [Setting.key], hstrict⟩

end Settings

end RegressionGate
