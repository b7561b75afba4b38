import RegressionGate.Proofs.CommandLine.Given
import RegressionGate.Settings.File

/-! Command lines written out from what they are to give. In whatever order the options stand and
however their values are attached, reading gives back what was written. -/

namespace RegressionGate.CommandLine

/-- What a command line is to give: texts for some options, and some flags. -/
structure Choice where
  value : ValueOption → Option String
  flag : Flag → Bool

/-- The texts that an option takes. -/
def ValueOption.Takes : ValueOption → String → Prop
  | threshold, text => (Decimal.read? text.toList).isSome
  | baseline, _ | current, _ => True
  | build, text | config, text => text ≠ ""
  | format, text => text = "text" ∨ text = "json"

/-- An option as it is written: a value behind an equals sign or as an argument of its own, or a
flag. -/
inductive Spelled
  | attached (option : ValueOption) (value : String)
  | apart (option : ValueOption) (value : String)
  | flag (flag : Flag)
deriving DecidableEq, Repr

namespace Spelled

def words : Spelled → List String
  | attached o v => [o.long ++ "=" ++ v]
  | apart o v => [o.long, v]
  | flag f => [f.long]

def name : Spelled → Name
  | attached o _ | apart o _ => .value o
  | flag f => .flag f

def value? : Spelled → Option (ValueOption × String)
  | attached o v | apart o v => some (o, v)
  | flag _ => none

/-- Whether the value of an option can be told from the next option. -/
def Readable : Spelled → Prop
  | apart _ v => v.toList.head? ≠ some '-'
  | attached .. | flag _ => True

end Spelled

namespace Choice

/-- What the texts of a choice stand for. -/
def arguments (c : Choice) : Arguments where
  threshold := (c.value .threshold).bind fun text => Decimal.read? text.toList
  baseline := c.value .baseline
  current := c.value .current
  build := (c.value .build).map Path.ofString
  format := (c.value .format).bind Settings.formatOf?
  config := (c.value .config).map Path.ofString
  json := c.flag .json
  strict := c.flag .strict
  debug := c.flag .debug

/-- Whether each text is one that its option takes, and the format is asked for one way at most. -/
structure Valid (c : Choice) : Prop where
  takes : ∀ o v, c.value o = some v → o.Takes v
  single : ¬(c.flag .json ∧ (c.value .format).isSome)

/-- Whether options in some order, each written once, are what a choice gives. -/
structure WrittenAs (c : Choice) (ws : List Spelled) : Prop where
  once : (ws.map Spelled.name).Nodup
  readable : ∀ w ∈ ws, w.Readable
  value : ∀ o v, c.value o = some v ↔ ∃ w ∈ ws, w.value? = some (o, v)
  flag : ∀ f, c.flag f ↔ .flag f ∈ ws

def nothing : Choice := ⟨fun _ => none, fun _ => false⟩

/-- A choice with another option given. -/
def give (c : Choice) : Spelled → Choice
  | .attached o v | .apart o v =>
    { c with value := fun o' => if o' = o then some v else c.value o' }
  | .flag f => { c with flag := fun f' => f' = f || c.flag f' }

def Lacks (c : Choice) : Name → Prop
  | .value o => c.value o = none
  | .flag f => c.flag f = false

variable {c d : Choice} {o : ValueOption} {f : Flag} {v : String} {w : Spelled} {n : Name}

theorem set_arguments (c : Choice) (h : o.Takes v) :
    c.arguments.set o v = .ok (c.give (.attached o v)).arguments := by
  cases o with
  | threshold =>
    obtain ⟨x, hx⟩ := Option.isSome_iff_exists.mp h
    simp [Arguments.set, arguments, give, hx]
  | baseline | current => simp [Arguments.set, arguments, give]
  | build | config =>
    have hv : v ≠ "" := h
    simp [Arguments.set, arguments, give, hv]
  | format => rcases h with rfl | rfl <;> simp [Arguments.set, arguments, give, Settings.formatOf?]

theorem setFlag_arguments (c : Choice) (f : Flag) :
    c.arguments.setFlag f = (c.give (.flag f)).arguments := by
  cases f <;> simp [Arguments.setFlag, arguments, give]

theorem Lacks.not_has (h : c.Lacks n) : ¬c.arguments.Has n := by
  rcases n with o | f
  · have hvalue : c.value o = none := h
    cases o <;> simp [Arguments.Has, Arguments.has, arguments, hvalue]
  · have hflag : c.flag f = false := h
    cases f <;> simp [Arguments.Has, Arguments.hasFlag, arguments, hflag]

theorem value_give (o' : ValueOption) (v' : String) (hlacks : c.Lacks w.name) :
    (c.give w).value o' = some v' ↔ c.value o' = some v' ∨ w.value? = some (o', v') := by
  cases w with
  | attached o v | apart o v =>
    have hnone : c.value o = none := hlacks
    by_cases ho : o' = o
    · subst ho
      simp [give, Spelled.value?, hnone]
    · simp [give, Spelled.value?, ho, Ne.symm ho]
  | flag f => simp [give, Spelled.value?]

theorem flag_give (c : Choice) (w : Spelled) (f : Flag) :
    (c.give w).flag f ↔ c.flag f ∨ w = .flag f := by
  cases w with
  | attached o v | apart o v => simp [give]
  | flag f' =>
    simp only [give, Bool.or_eq_true, decide_eq_true_eq, Spelled.flag.injEq]
    exact or_comm.trans (or_congr_right eq_comm)

theorem Lacks.give (h : c.Lacks n) (hne : w.name ≠ n) : (c.give w).Lacks n := by
  cases w with
  | attached o v | apart o v =>
    cases n with
    | value o' => exact (if_neg fun ho => hne (congrArg Name.value ho.symm)).trans h
    | flag f => exact h
  | flag f =>
    cases n with
    | value o => exact h
    | flag f' =>
      have hf : f' ≠ f := fun hf => hne (congrArg Name.flag hf.symm)
      have hflag : c.flag f' = false := h
      simp [Lacks, Choice.give, hf, hflag]

/-- Whether options that are still to be read make of a choice another one. -/
structure Completes (d : Choice) (ws : List Spelled) (c : Choice) : Prop where
  once : (ws.map Spelled.name).Nodup
  new : ∀ w ∈ ws, d.Lacks w.name
  value : ∀ o v, c.value o = some v ↔ d.value o = some v ∨ ∃ w ∈ ws, w.value? = some (o, v)
  flag : ∀ f, c.flag f ↔ d.flag f ∨ .flag f ∈ ws

theorem Completes.give {ws : List Spelled} (h : Completes d (w :: ws) c) :
    Completes (d.give w) ws c := by
  obtain ⟨hw, honce⟩ := List.nodup_cons.mp h.once
  obtain ⟨hlacks, hnew⟩ := List.forall_mem_cons.mp h.new
  refine ⟨honce, fun w' hw' => (hnew w' hw').give fun heq => hw ?_, fun o v => ?_, fun f => ?_⟩
  · exact List.mem_map.mpr ⟨w', hw', heq.symm⟩
  · rw [h.value, value_give o v hlacks, or_assoc]
    simp only [List.mem_cons, exists_eq_or_imp]
  · rw [h.flag, flag_give, or_assoc, List.mem_cons, eq_comm (a := w)]

theorem Completes.eq (h : Completes d [] c) : d = c := by
  obtain ⟨value, flag⟩ := d
  obtain ⟨value', flag'⟩ := c
  have hvalue : value = value' := funext fun o => Option.ext fun v => by
    simpa using (h.value o v).symm
  have hflag : flag = flag' := funext fun f => Bool.eq_iff_iff.mpr (by simpa using (h.flag f).symm)
  rw [hvalue, hflag]

end Choice

/-! ### Reading what is written -/

variable {p p' : Progress} {c d : Choice} {o : ValueOption} {f : Flag} {v : String} {w : Spelled}
  {ws : List Spelled}

/-- Whether what has been read so far is what a choice gives. The value of the last option may still
be unsettled. -/
def Progress.Holds (p : Progress) (c : Choice) : Prop :=
  ∃ jsonFirst, p.settle = .ok { settled := c.arguments, jsonFirst }

theorem settle_given (hlacks : c.Lacks (.value o)) (htakes : o.Takes v) (jsonFirst : Bool) :
    Progress.settle { settled := c.arguments, pending := some (o, some v), jsonFirst } =
      .ok { settled := (c.give (.attached o v)).arguments, jsonFirst } := by
  have hhas : ¬c.arguments.has o := hlacks.not_has
  rw [Progress.settle]
  dsimp only
  rw [if_neg hhas, c.set_arguments htakes]
  rfl

/-- An option that is written is read by itself, whatever stands behind it. -/
theorem Progress.Holds.exists_read (h : p.Holds c) (hlacks : c.Lacks w.name)
    (htakes : ∀ o v, w.value? = some (o, v) → o.Takes v) (hreadable : w.Readable) :
    ∃ p', p'.Holds (c.give w) ∧ ∀ rest, readFrom p (w.words ++ rest) = readFrom p' rest := by
  obtain ⟨jsonFirst, hsettle⟩ := h
  cases w with
  | attached o v =>
    have htaken := settle_given hlacks (htakes o v rfl) jsonFirst
    exact ⟨_, ⟨jsonFirst, rfl⟩, (Step.attached o v hsettle htaken).readFrom_eq⟩
  | apart o v =>
    have htaken := settle_given hlacks (htakes o v rfl) jsonFirst
    have hplain : ∀ c cs, v.toList ≠ '-' :: c :: cs := by
      intro c cs hv
      exact hreadable (by rw [hv]; rfl)
    refine ⟨_, ⟨jsonFirst, htaken⟩, fun rest => ?_⟩
    rw [Spelled.words, List.cons_append, (Step.option o hsettle).readFrom_eq]
    exact (Step.value o v rfl hplain).readFrom_eq rest
  | flag f =>
    have hflag : ¬c.arguments.hasFlag f := hlacks.not_has
    have htaken : ∃ jsonFirst', p.takeFlag f =
        .ok { settled := (c.give (.flag f)).arguments, jsonFirst := jsonFirst' } := by
      rw [takeFlag, hsettle, ← c.setFlag_arguments]
      exact ⟨_, if_neg hflag⟩
    obtain ⟨jsonFirst', htaken⟩ := htaken
    exact ⟨_, ⟨jsonFirst', rfl⟩, (Step.flag f htaken).readFrom_eq⟩

/-- By induction on the options in the order in which they are written. -/
theorem Progress.Holds.read_words (h : p.Holds d) (hvalid : c.Valid) (hcompletes : d.Completes ws c)
    (hreadable : ∀ w ∈ ws, w.Readable) :
    readFrom p (ws.flatMap Spelled.words) = .ok (.run c.arguments) := by
  induction ws generalizing p d with
  | nil =>
    obtain ⟨jsonFirst, hsettle⟩ := h
    rw [hcompletes.eq] at hsettle
    have hsingle : ¬(c.arguments.json && c.arguments.format.isSome) = true := by
      intro hboth
      obtain ⟨hjson, hformat⟩ := Bool.and_eq_true_iff.mp hboth
      refine hvalid.single ⟨hjson, ?_⟩
      obtain ⟨format, hbind⟩ := Option.isSome_iff_exists.mp hformat
      obtain ⟨text, htext, -⟩ := Option.bind_eq_some_iff.mp hbind
      exact Option.isSome_iff_exists.mpr ⟨text, htext⟩
    rw [List.flatMap_nil, readFrom, Progress.finish, hsettle]
    exact if_neg hsingle
  | cons w ws ih =>
    obtain ⟨hw, hws⟩ := List.forall_mem_cons.mp hreadable
    have htakes (o : ValueOption) (v : String) (hv : w.value? = some (o, v)) : o.Takes v :=
      hvalid.takes o v ((hcompletes.value o v).mpr (.inr ⟨w, List.mem_cons_self, hv⟩))
    obtain ⟨p', hp', hread⟩ := h.exists_read (hcompletes.new w List.mem_cons_self) htakes hw
    rw [List.flatMap_cons, hread]
    exact ih hp' hcompletes.give hws

theorem Choice.WrittenAs.read_eq (h : c.WrittenAs ws) (hvalid : c.Valid) :
    read (ws.flatMap Spelled.words) = .ok (.run c.arguments) := by
  have hholds : Progress.Holds {} Choice.nothing := ⟨false, rfl⟩
  have hcompletes : Choice.nothing.Completes ws c := by
    refine ⟨h.once, fun w _ => ?_, fun o v => ?_, fun f => ?_⟩
    · cases w <;> rfl
    · simp [h.value, Choice.nothing]
    · simp [h.flag, Choice.nothing]
  exact hholds.read_words hvalid hcompletes h.readable

/-- Options that are written out, each once and in any order, are read as what they give and nothing
else. A command line that gives an option twice, or both that ask for a format, is not read as
anything to run, wherever and however the two are spelled: unless it asks for help or the version,
it is refused. -/
theorem read_written :
    (∀ (c : Choice) (ws : List Spelled), c.Valid → c.WrittenAs ws →
      read (ws.flatMap Spelled.words) = .ok (.run c.arguments)) ∧
    ∀ (args front middle back : List String) (x y : String) (n n' : Name), Gives x n → Gives y n' →
      n.Excludes n' → args = front ++ x :: (middle ++ y :: back) →
        (∀ a, read args ≠ .ok (.run a)) ∧
          ((∀ z ∈ args, ¬AsksForHelp z) → ∃ e, read args = .error e) := by
  refine ⟨fun c ws hvalid hwritten => hwritten.read_eq hvalid, ?_⟩
  rintro args front middle back x y n n' hx hy hexcludes rfl
  have hrun (a : Arguments) : read (front ++ x :: (middle ++ y :: back)) ≠ .ok (.run a) :=
    not_run_of_excludes hx hy hexcludes a
  refine ⟨hrun, fun hhelp => ?_⟩
  cases hread : read (front ++ x :: (middle ++ y :: back)) with
  | error e => exact ⟨e, rfl⟩
  | ok r =>
    obtain ⟨a, rfl⟩ := run_of_readFrom hread hhelp
    exact absurd hread (hrun a)

/-- Values that look like options, attached or with an equals sign in them. -/
def disguised : Choice where
  value
    | .threshold => some "-1e3"
    | .baseline => some "a=b"
    | .current => some "--strict"
    | _ => none
  flag := fun f => f = .debug

def disguisedSpelling : List Spelled :=
  [.attached .current "--strict", .flag .debug, .apart .baseline "a=b", .attached .threshold "-1e3"]

theorem read_written_disguised :
    disguised.Valid ∧ disguised.WrittenAs disguisedSpelling ∧
      read ["--current=--strict", "--debug", "--baseline", "a=b", "--threshold=-1e3"] =
        .ok (.run { threshold := some (-1000), baseline := some "a=b", current := some "--strict",
                    debug := true }) ∧
      ∃ e, read ["--json", "--baseline=--json", "--format", "text"] = .error e := by
  have hvalid : disguised.Valid := by
    refine ⟨fun o v hv => ?_, by decide⟩
    cases o with
    | threshold =>
      obtain rfl := Option.some.inj hv
      rw [ValueOption.Takes]
      decide +kernel
    | baseline | current => trivial
    | build | format | config => contradiction
  have hwritten : disguised.WrittenAs disguisedSpelling := by
    refine ⟨by decide, ?_, fun o v => ?_, fun f => ?_⟩
    · simp only [disguisedSpelling, List.forall_mem_cons, Spelled.Readable]
      exact ⟨trivial, trivial, by decide, trivial, fun _ h => absurd h List.not_mem_nil⟩
    · cases o <;> simp [disguised, disguisedSpelling, Spelled.value?, eq_comm]
    · cases f <;> decide
  obtain ⟨hread, hrefuse⟩ := read_written
  refine ⟨hvalid, hwritten, ?_, ?_⟩
  · have harguments : disguised.arguments =
        { threshold := some (-1000), baseline := some "a=b", current := some "--strict",
          debug := true } := by
      decide +kernel
    rw [← harguments]
    exact hread disguised disguisedSpelling hvalid hwritten
  · refine (hrefuse _ [] ["--baseline=--json"] ["text"] "--json" "--format" (.flag .json)
      (.value .format) (.inl rfl) (.inl rfl) (.inr (.inl ⟨rfl, rfl⟩)) rfl).2 ?_
    decide

end RegressionGate.CommandLine
