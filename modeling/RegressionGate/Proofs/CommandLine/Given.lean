import RegressionGate.Proofs.CommandLine.Step

/-! What a command line gives. One that asks for a run gives no option twice, and not both ways to
ask for a format, whatever stands between the two. -/

namespace RegressionGate.CommandLine

variable {p p' p₀ : Progress} {o : ValueOption} {f : Flag} {n n' : Name} {v x : String}
  {args : List String} {a a' : Arguments}

/-- Whether an argument names an option, with or without a value attached. -/
def Gives (argument : String) (n : Name) : Prop :=
  argument = n.long ∨ ∃ v, argument = n.long ++ "=" ++ v

def Arguments.Has (a : Arguments) : Name → Prop
  | .value o => a.has o
  | .flag f => a.hasFlag f

/-- Whether an option is settled or waits to be. -/
def Progress.Has (p : Progress) (n : Name) : Prop :=
  p.settled.Has n ∨ ∃ o v, p.pending = some (o, v) ∧ n = .value o

/-- Whether the option that waits is not settled already. -/
def Progress.Clear (p : Progress) : Prop :=
  ∀ o v, p.pending = some (o, v) → ¬p.settled.Has (.value o)

theorem Gives.unique (h : Gives x n) (h' : Gives x n') : n = n' := by
  have hsplit {n : Name} (h : Gives x n) : (splitAttached x).1 = n.long := by
    obtain ⟨-, -, -, hequals⟩ := n.long_shape
    rcases h with rfl | ⟨v, rfl⟩
    · rw [splitAttached_plain hequals]
    · rw [splitAttached_attached hequals]
  exact Name.long_inj ((hsplit h).symm.trans (hsplit h'))

theorem Gives.shape (h : Gives x n) : ∃ c cs, x.toList = '-' :: '-' :: c :: cs := by
  obtain ⟨c, cs, hlong, -⟩ := n.long_shape
  rcases h with rfl | ⟨v, rfl⟩
  · exact ⟨_, _, hlong⟩
  · rw [String.toList_append, String.toList_append, hlong]
    exact ⟨_, _, rfl⟩

theorem Arguments.has_set (h : a.set o v = .ok a') : a'.Has n ↔ a.Has n ∨ n = .value o := by
  cases o
  all_goals
    simp only [set] at h
    repeat' split at h
  all_goals try contradiction
  all_goals
    obtain rfl := Except.ok.inj h
    rcases n with o | f
    · cases o <;> simp [Has, has]
    · cases f <;> simp [Has, hasFlag]

theorem Arguments.has_setFlag : (a.setFlag f).Has n ↔ a.Has n ∨ n = .flag f := by
  rcases n with o | f'
  · cases f <;> cases o <;> simp [Has, has, setFlag]
  · cases f <;> cases f' <;> simp [Has, hasFlag, setFlag]

theorem Progress.has_iff_settled (h : p.pending = none) : p.Has n ↔ p.settled.Has n := by
  simp [Progress.Has, h]

theorem Progress.has_awaiting (p : Progress) (o : ValueOption) (value : Option String) :
    Progress.Has { p with pending := some (o, value) } n ↔ p.settled.Has n ∨ n = .value o := by
  simp [Progress.Has]

theorem Progress.settle_eq_ok (h : p.settle = .ok p₀) :
    p₀.pending = none ∧ (∀ n, p₀.Has n ↔ p.Has n) ∧ p.Clear := by
  obtain ⟨settled, pending, jsonFirst⟩ := p
  rcases pending with - | ⟨o, - | v⟩
  · obtain rfl := Except.ok.inj h
    exact ⟨rfl, fun _ => Iff.rfl, fun _ _ h => by contradiction⟩
  · contradiction
  · rw [settle] at h
    dsimp only at h
    split at h
    · contradiction
    · rename_i hclear
      obtain ⟨a, ha, h⟩ := exists_of_bind_eq_ok h
      obtain rfl := Except.ok.inj h
      refine ⟨rfl, fun n => ?_, ?_⟩
      · rw [has_iff_settled rfl]
        exact (Arguments.has_set ha).trans (has_awaiting ⟨settled, none, jsonFirst⟩ o _).symm
      · rintro _ _ ⟨⟩
        exact hclear

theorem Progress.takeFlag_eq_ok (h : p.takeFlag f = .ok p') :
    (∀ n, p'.Has n ↔ p.Has n ∨ n = .flag f) ∧ ¬p.Has (.flag f) ∧ p.Clear := by
  obtain ⟨p₀, hp₀, h⟩ := exists_of_bind_eq_ok h
  obtain ⟨hpending, hhas, hclear⟩ := settle_eq_ok hp₀
  split at h
  · contradiction
  · rename_i hflag
    obtain rfl := Except.ok.inj h
    refine ⟨fun n => ?_, fun hf => hflag ?_, hclear⟩
    · rw [← hhas, has_iff_settled hpending, ← Arguments.has_setFlag]
      exact has_iff_settled hpending
    · rwa [← hhas, has_iff_settled hpending] at hf

/-! ### One argument -/

/-- An argument that names an option gives one that was not there before. Whether an option with its
value to come was there shows when it is settled. -/
theorem Step.has (h : Step p x p') (hclear : p'.Clear) :
    p.Clear ∧ (∀ n, p.Has n → p'.Has n) ∧ ∀ n, Gives x n → ¬p.Has n ∧ p'.Has n := by
  cases h with
  | @option p₀ o settled =>
    obtain ⟨hpending, hhas, hp⟩ := Progress.settle_eq_ok settled
    have hnew (n : Name) : Progress.Has { p₀ with pending := some (o, none) } n ↔
        p.Has n ∨ n = .value o := by
      rw [p₀.has_awaiting, ← Progress.has_iff_settled hpending, hhas]
    refine ⟨hp, fun n hn => (hnew n).mpr (.inl hn), fun n hn => ?_⟩
    obtain rfl : n = .value o := hn.unique (.inl rfl)
    refine ⟨fun hthere => hclear o none rfl ?_, (hnew _).mpr (.inr rfl)⟩
    exact (Progress.has_iff_settled hpending).mp ((hhas _).mpr hthere)
  | @attached p₀ _ o v settled taken =>
    obtain ⟨hpending, hhas, hp⟩ := Progress.settle_eq_ok settled
    obtain ⟨-, hhas', hclear'⟩ := Progress.settle_eq_ok taken
    have hnew (n : Name) : p'.Has n ↔ p.Has n ∨ n = .value o := by
      rw [hhas', p₀.has_awaiting, ← Progress.has_iff_settled hpending, hhas]
    refine ⟨hp, fun n hn => (hnew n).mpr (.inl hn), fun n hn => ?_⟩
    obtain rfl : n = .value o := hn.unique (.inr ⟨v, rfl⟩)
    refine ⟨fun hthere => hclear' o (some v) rfl ?_, (hnew _).mpr (.inr rfl)⟩
    exact (Progress.has_iff_settled hpending).mp ((hhas _).mpr hthere)
  | flag f taken =>
    obtain ⟨hhas, hnot, hp⟩ := Progress.takeFlag_eq_ok taken
    refine ⟨hp, fun n hn => (hhas n).mpr (.inl hn), fun n hn => ?_⟩
    obtain rfl : n = .flag f := hn.unique (.inl rfl)
    exact ⟨hnot, (hhas _).mpr (.inr rfl)⟩
  | value o v awaited plain =>
    refine ⟨?_, fun n hn => ?_, fun n hn => ?_⟩
    · rintro o' v' hpending
      obtain ⟨rfl, -⟩ := Prod.mk.inj (Option.some.inj (awaited.symm.trans hpending))
      exact hclear o (some x) rfl
    · rw [p.has_awaiting]
      refine hn.imp id ?_
      rintro ⟨o', v', hpending, rfl⟩
      obtain ⟨rfl, -⟩ := Prod.mk.inj (Option.some.inj (awaited.symm.trans hpending))
      rfl
    · obtain ⟨c, cs, hx⟩ := hn.shape
      exact absurd hx (plain _ _)

/-! ### Whole command lines -/

/-- What is so when the reading of arguments from a progress on ends in a run. -/
structure Progress.Leads (p : Progress) (args : List String) (a : Arguments) : Prop where
  clear : p.Clear
  keeps (n : Name) : p.Has n → a.Has n
  gives : ∀ x ∈ args, ∀ n, Gives x n → ¬p.Has n ∧ a.Has n
  distinct : args.Pairwise fun x y => ∀ n, Gives x n → ¬Gives y n
  single : ¬(a.Has (.flag .json) ∧ a.Has (.value .format))

theorem Progress.leads_of_finish (h : p.finish = .ok (.run a)) : p.Leads [] a := by
  obtain ⟨p₀, hp₀, h⟩ := exists_of_bind_eq_ok h
  obtain ⟨hpending, hhas, hclear⟩ := settle_eq_ok hp₀
  split at h
  · split at h <;> contradiction
  · rename_i hsingle
    obtain rfl := Request.run.inj (Except.ok.inj h)
    refine ⟨hclear, fun n hn => ?_, fun x hx => absurd hx List.not_mem_nil, .nil, fun hboth => ?_⟩
    · exact (has_iff_settled hpending).mp ((hhas n).mpr hn)
    · exact hsingle (Bool.and_eq_true_iff.mpr hboth)

theorem Step.leads (h : Step p x p') (hrest : p'.Leads args a) : p.Leads (x :: args) a := by
  obtain ⟨hclear, hkeeps, hgives⟩ := h.has hrest.clear
  refine ⟨hclear, fun n hn => hrest.keeps n (hkeeps n hn), ?_, ?_, hrest.single⟩
  · rintro y hy n hn
    rcases List.mem_cons.mp hy with rfl | hy
    · exact ⟨(hgives n hn).1, hrest.keeps n (hgives n hn).2⟩
    · obtain ⟨hnot, ha⟩ := hrest.gives y hy n hn
      exact ⟨fun hp => hnot (hkeeps n hp), ha⟩
  · refine List.pairwise_cons.mpr ⟨fun y hy n hn hy' => ?_, hrest.distinct⟩
    exact (hrest.gives y hy n hy').1 (hgives n hn).2

/-- By induction on the arguments, from the last back to the first. -/
theorem leads_of_readFrom (h : readFrom p args = .ok (.run a)) : p.Leads args a := by
  induction args generalizing p with
  | nil =>
    rw [readFrom] at h
    exact Progress.leads_of_finish h
  | cons x rest ih =>
    cases reads_of_readFrom h with
    | step hstep h => exact hstep.leads (ih h)
    | ended hmark hlast h =>
      subst hmark hlast
      obtain ⟨hclear, hkeeps, -, -, hsingle⟩ := Progress.leads_of_finish h
      have hnone (n : Name) : ¬Gives "--" n := by
        intro hn
        obtain ⟨c, cs, hdashes⟩ := hn.shape
        simp at hdashes
      refine ⟨hclear, hkeeps, fun y hy n hn => ?_, List.pairwise_singleton _ _, hsingle⟩
      rw [List.mem_singleton.mp hy] at hn
      exact absurd hn (hnone n)
    | help hasks hother => exact absurd rfl (hother a)

theorem Progress.run_of_finish {r : Request} (h : p.finish = .ok r) : ∃ a, r = .run a := by
  obtain ⟨p₀, -, h⟩ := exists_of_bind_eq_ok h
  split at h
  · split at h <;> contradiction
  · exact ⟨_, (Except.ok.inj h).symm⟩

/-- Only help and the version are asked for otherwise than by a run. -/
theorem run_of_readFrom {r : Request} (h : readFrom p args = .ok r)
    (hhelp : ∀ x ∈ args, ¬AsksForHelp x) : ∃ a, r = .run a := by
  induction args generalizing p with
  | nil =>
    rw [readFrom] at h
    exact Progress.run_of_finish h
  | cons x rest ih =>
    obtain ⟨hx, hrest⟩ := List.forall_mem_cons.mp hhelp
    cases reads_of_readFrom h with
    | step hstep h => exact ih h hrest
    | ended hmark hlast h => exact Progress.run_of_finish h
    | help hasks hother => exact absurd hasks hx

/-- Whether two options stand in each other's way: one given twice, or both that ask for a
format. -/
def Name.Excludes (n n' : Name) : Prop :=
  n = n' ∨ n = .flag .json ∧ n' = .value .format ∨ n = .value .format ∧ n' = .flag .json

theorem not_run_of_excludes {front middle back : List String} {y : String} (hx : Gives x n)
    (hy : Gives y n') (h : n.Excludes n') (a : Arguments) :
    read (front ++ x :: (middle ++ y :: back)) ≠ .ok (.run a) := by
  intro hread
  have hleads := leads_of_readFrom hread
  have hmem : x ∈ front ++ x :: (middle ++ y :: back) := by simp
  have hmem' : y ∈ front ++ x :: (middle ++ y :: back) := by simp
  have hhas := (hleads.gives x hmem n hx).2
  have hhas' := (hleads.gives y hmem' n' hy).2
  rcases h with rfl | ⟨rfl, rfl⟩ | ⟨rfl, rfl⟩
  · have htail := (List.pairwise_append.mp hleads.distinct).2.1
    have hxy := (List.pairwise_cons.mp htail).1 y (by simp)
    exact hxy n hx hy
  · exact hleads.single ⟨hhas, hhas'⟩
  · exact hleads.single ⟨hhas', hhas⟩

end RegressionGate.CommandLine
