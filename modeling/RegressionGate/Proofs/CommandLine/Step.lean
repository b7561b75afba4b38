import Mathlib.Data.List.TakeWhile
import RegressionGate.CommandLine.Parse

/-! Reading a command line argument by argument. An argument names an option, with its value
attached or not, or it is the value that the option before it waits for. A command line that asks
for a run is a chain of such steps. -/

namespace RegressionGate.CommandLine

/-- An option of either kind. -/
inductive Name
  | value (option : ValueOption)
  | flag (flag : Flag)
deriving DecidableEq, Repr

def Name.long : Name → String
  | value o => o.long
  | flag f => f.long

variable {p p' p₀ p₁ : Progress} {o : ValueOption} {f : Flag} {n : Name} {v argument : String}
  {rest : List String} {a : Arguments}

/-! ### Names of options -/

/-- Names begin with two hyphens and something behind them, without an equals sign. -/
theorem Name.long_shape (n : Name) :
    ∃ c cs, n.long.toList = '-' :: '-' :: c :: cs ∧ '=' ∉ n.long.toList := by
  rcases n with o | f
  · cases o <;> exact ⟨_, _, rfl, by decide⟩
  · cases f <;> exact ⟨_, _, rfl, by decide⟩

theorem Name.long_inj {n n' : Name} (h : n.long = n'.long) : n = n' := by
  revert h
  rcases n with o | f <;> rcases n' with o' | f'
  · cases o <;> cases o' <;> decide
  · cases o <;> cases f' <;> decide
  · cases f <;> cases o' <;> decide
  · cases f <;> cases f' <;> decide

@[simp] theorem ValueOption.ofLong?_long (o : ValueOption) : ofLong? o.long = some o := by
  cases o <;> decide

@[simp] theorem ValueOption.ofLong?_flag (f : Flag) : ofLong? f.long = none := by
  cases f <;> decide

@[simp] theorem Flag.ofLong?_long (f : Flag) : ofLong? f.long = some f := by
  cases f <;> decide

theorem ValueOption.long_of_ofLong? {name : String} (h : ofLong? name = some o) :
    o.long = name := by
  rw [ofLong?] at h
  have hbeq := List.find?_some h
  exact eq_of_beq hbeq

theorem Flag.long_of_ofLong? {name : String} (h : ofLong? name = some f) : f.long = name := by
  rw [ofLong?] at h
  have hbeq := List.find?_some h
  exact eq_of_beq hbeq

theorem splitAttached_plain {name : String} (h : '=' ∉ name.toList) :
    splitAttached name = (name, none) := by
  have hname : ∀ c ∈ name.toList, decide (c ≠ '=') := fun c hc =>
    decide_eq_true fun heq => h (heq ▸ hc)
  rw [splitAttached, List.dropWhile_eq_nil_iff.mpr hname]

theorem splitAttached_attached {name : String} (h : '=' ∉ name.toList) (v : String) :
    splitAttached (name ++ "=" ++ v) = (name, some v) := by
  have hname : ∀ c ∈ name.toList, decide (c ≠ '=') := fun c hc =>
    decide_eq_true fun heq => h (heq ▸ hc)
  have hlist : (name ++ "=" ++ v).toList = name.toList ++ '=' :: v.toList := by
    rw [String.toList_append, String.toList_append, List.append_assoc]
    rfl
  rw [splitAttached, hlist, List.dropWhile_append_of_pos hname, List.takeWhile_append_of_pos hname]
  simp

/-- An argument is what stands before its first equals sign and what is attached behind it. -/
theorem eq_of_splitAttached {s name : String} {attached : Option String}
    (h : splitAttached s = (name, attached)) :
    s = attached.elim name (name ++ "=" ++ ·) := by
  have hsplit := List.takeWhile_append_dropWhile (p := fun c => decide (c ≠ '=')) (l := s.toList)
  have hhead := List.head?_dropWhile_not (fun c => decide (c ≠ '=')) s.toList
  rw [splitAttached] at h
  split at h
  · rename_i c value hdrop
    obtain ⟨rfl, rfl⟩ := Prod.mk.inj h
    rw [hdrop] at hsplit hhead
    obtain rfl : c = '=' := by simpa using hhead
    refine (String.toList_inj.mp ?_).symm
    rw [Option.elim_some]
    simp only [String.toList_append, String.toList_ofList, List.append_assoc]
    exact hsplit
  · obtain ⟨rfl, rfl⟩ := Prod.mk.inj h
    rfl

theorem exists_of_bind_eq_ok {ε α β : Type} {x : Except ε α} {g : α → Except ε β} {b : β}
    (h : (x >>= g) = .ok b) : ∃ c, x = .ok c ∧ g c = .ok b := by
  cases x with
  | error e => contradiction
  | ok c => exact ⟨c, rfl, h⟩

/-! ### Steps -/

/-- What an argument makes of the progress so far. -/
inductive Step (p : Progress) : String → Progress → Prop
  | option {p₀ : Progress} (o : ValueOption) (settled : p.settle = .ok p₀) :
      Step p o.long { p₀ with pending := some (o, none) }
  | attached {p₀ p₁ : Progress} (o : ValueOption) (v : String) (settled : p.settle = .ok p₀)
      (taken : Progress.settle { p₀ with pending := some (o, some v) } = .ok p₁) :
      Step p (o.long ++ "=" ++ v) p₁
  | flag {p₁ : Progress} (f : Flag) (taken : p.takeFlag f = .ok p₁) : Step p f.long p₁
  | value (o : ValueOption) (v : String) (awaited : p.pending = some (o, none))
      (plain : ∀ c cs, v.toList ≠ '-' :: c :: cs) :
      Step p v { p with pending := some (o, some v) }

theorem Step.readFrom_eq {x : String} (h : Step p x p') (rest : List String) :
    readFrom p (x :: rest) = readFrom p' rest := by
  rw [readFrom.eq_def]
  cases h with
  | option o settled =>
    obtain ⟨c, cs, hlong, hequals⟩ := (Name.value o).long_shape
    have hsplit : splitAttached o.long = (o.long, none) := splitAttached_plain hequals
    change o.long.toList = _ at hlong
    simp only [hlong, hsplit, ValueOption.ofLong?_long, settled]
    rfl
  | @attached p₀ _ o v settled taken =>
    obtain ⟨c, cs, hlong, hequals⟩ := (Name.value o).long_shape
    have hsplit : splitAttached (o.long ++ "=" ++ v) = (o.long, some v) :=
      splitAttached_attached hequals v
    have hlist : (o.long ++ "=" ++ v).toList = '-' :: '-' :: c :: (cs ++ '=' :: v.toList) := by
      change o.long.toList = _ at hlong
      rw [String.toList_append, String.toList_append, hlong, List.append_assoc]
      rfl
    simp only [hlist, hsplit, ValueOption.ofLong?_long, settled]
    change (do readFrom (← Progress.settle { p₀ with pending := some (o, some v) }) rest) = _
    rw [taken]
    rfl
  | flag f taken =>
    obtain ⟨c, cs, hlong, hequals⟩ := (Name.flag f).long_shape
    have hsplit : splitAttached f.long = (f.long, none) := splitAttached_plain hequals
    change f.long.toList = _ at hlong
    simp only [hlong, hsplit, ValueOption.ofLong?_flag, Flag.ofLong?_long, taken]
    rfl
  | value o v awaited plain =>
    dsimp only
    split
    · exact absurd ‹_› (plain _ _)
    · exact absurd ‹_› (plain _ _)
    · exact absurd ‹_› (plain _ _)
    · rw [awaited]

/-- Whether an argument asks for help or for the version. -/
def AsksForHelp (x : String) : Prop :=
  x = "--help" ∨ x = "--version" ∨ ['-', 'h'] <+: x.toList ∨ ['-', 'V'] <+: x.toList

instance (x : String) : Decidable (AsksForHelp x) := inferInstanceAs (Decidable (_ ∨ _))

/-- How a reading with an argument in front comes to what a command line asks for: by a step and
the arguments behind it, at the mark of the end of the options, or because that is help. -/
inductive Reads (p : Progress) (x : String) (rest : List String) (r : Request) : Prop
  | step {p' : Progress} (step : Step p x p') (behind : readFrom p' rest = .ok r)
  | ended (mark : x = "--") (last : rest = []) (finished : p.finish = .ok r)
  | help (asks : AsksForHelp x) (other : ∀ a, r ≠ .run a)

theorem reads_of_readFrom {x : String} {r : Request} (h : readFrom p (x :: rest) = .ok r) :
    Reads p x rest r := by
  rw [readFrom.eq_def] at h
  dsimp only at h
  split at h
  · rename_i hx
    split at h
    · exact .ended (by rw [← String.toList_inj, hx]; rfl) rfl h
    · contradiction
  · generalize hsplit : splitAttached x = split at h
    obtain ⟨name, attached⟩ := split
    have hx := eq_of_splitAttached hsplit
    dsimp only at h
    split at h
    · rename_i o ho
      obtain rfl := ValueOption.long_of_ofLong? ho
      obtain ⟨p₀, hp₀, h⟩ := exists_of_bind_eq_ok h
      cases attached with
      | none => exact .step (hx ▸ .option o hp₀) h
      | some v =>
        obtain ⟨p₁, hp₁, h⟩ := exists_of_bind_eq_ok h
        exact .step (hx ▸ .attached o v hp₀ hp₁) h
    · split at h
      · rename_i f hf
        obtain rfl := Flag.long_of_ofLong? hf
        obtain ⟨p₁, hp₁, h⟩ := exists_of_bind_eq_ok h
        exact .step (hx ▸ .flag f hp₁) h
      · contradiction
      · split at h
        · rename_i hhelp
          split at h
          · contradiction
          · obtain ⟨p₀, -, h⟩ := exists_of_bind_eq_ok h
            obtain rfl := Except.ok.inj h
            refine .help ?_ fun a => by split <;> simp
            rw [hx]
            exact hhelp.imp id .inl
        · contradiction
  · rename_i c cs _ _ hx
    split at h
    · rename_i hletter
      obtain ⟨p₀, -, h⟩ := exists_of_bind_eq_ok h
      obtain rfl := Except.ok.inj h
      refine .help (.inr (.inr ?_)) fun a => by split <;> simp
      rcases hletter with rfl | rfl
      · exact .inl ⟨cs, hx.symm⟩
      · exact .inr ⟨cs, hx.symm⟩
    · contradiction
  · rename_i hdash
    split at h
    · rename_i o hpending
      exact .step (.value o x hpending hdash) h
    · contradiction

end RegressionGate.CommandLine
