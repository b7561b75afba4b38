import RegressionGate.Json.Record
import RegressionGate.Proofs.Json.Skip

/-! Readers against the grammar: a number, a record with a single member, and a whole document. -/

namespace RegressionGate.Json

variable {α : Type} {s r : Bytes}

/-- A reader accepts the values that `P` relates to a result, and gives that result. -/
structure Reader.Accepts (value : Reader α) (P : Raw → α → Prop) : Prop where
  sound {s r : Bytes} {x : α} (h : value s = .ok (x, r)) :
    ∃ v a, Blanks s a ∧ Derives (.value v) a r ∧ P v x
  complete {s a r : Bytes} {v : Raw} {x : α} (blanks : Blanks s a) (h : Derives (.value v) a r)
    (hP : P v x) (hr : Stops r) : value s = .ok (x, r)

/-! ### Numbers -/

/-- A number literal and the number that it is converted to. -/
inductive Raw.Converts : Raw → Binary64 → Prop
  | number {l : Literal} {n : Number} (h : l.toNumber? = some n) : Converts (.number l) n.toBinary64

theorem readNumber_eq_ok_iff {n : Number} :
    readNumber s = .ok (n, r) ↔ ∃ l, scanLiteral .endInValue s = .ok (l, r) ∧
      l.toNumber? = some n := by
  rw [readNumber]
  cases hscan : scanLiteral .endInValue s with
  | error f => simp [bind, Except.bind]
  | ok p =>
    obtain ⟨l, rest⟩ := p
    simp only [bind, Except.bind, Except.ok.injEq, Prod.mk.injEq]
    cases hnumber : l.toNumber? with
    | none =>
      simp only [reduceCtorEq, false_iff, not_exists, not_and]
      rintro l' ⟨rfl, -⟩
      simp [hnumber]
    | some n' =>
      simp only [Except.ok.injEq, Prod.mk.injEq]
      constructor
      · rintro ⟨rfl, rfl⟩
        exact ⟨l, ⟨rfl, rfl⟩, hnumber⟩
      · rintro ⟨l', ⟨rfl, rfl⟩, hn⟩
        rw [hnumber] at hn
        exact ⟨Option.some.inj hn, rfl⟩

theorem accepts_binary64 : Reader.Accepts readBinary64 Raw.Converts where
  sound {s r x} h := by
    have hblanks := blanks_skipBlanks s
    rw [readBinary64] at h
    split at h
    · contradiction
    · rename_i c u hu
      rw [hu] at hblanks
      split at h
      · simp only [bind, Except.bind] at h
        split at h
        · contradiction
        · rename_i p hp
          cases h
          obtain ⟨l, hscan, hnumber⟩ := readNumber_eq_ok_iff.mp hp
          exact ⟨.number l, _, hblanks, .number (spelled_of_scanLiteral hscan), .number hnumber⟩
      · contradiction
  complete {s a r v x} blanks h hP hr := by
    cases hP with
    | @number l n hnumber =>
      cases h with
      | number h =>
        have hread := readNumber_eq_ok_iff.mpr ⟨l, h.scanLiteral hr, hnumber⟩
        obtain ⟨c, u, rfl, hc⟩ := h.exists_cons
        rw [readBinary64, blanks.skipBlanks_cons (isBlank_of_number hc)]
        simp only [if_pos hc, hread, bind, Except.bind]

/-! ### Records -/

/-- A member with another key. -/
def Other (key : String) (m : Bytes × Raw) : Prop := ∃ text, Spells m.1 text ∧ text ≠ key

/-- Members of which just one has the key, and what `P` relates to its value. -/
def Sole (key : String) (P : Raw → α → Prop) (ms : List (Bytes × Raw)) (x : α) : Prop :=
  ∃ before k v after, ms = before ++ (k, v) :: after ∧ Spells k key ∧ P v x ∧
    ∀ m ∈ before ++ after, Other key m

/-- A record with a single member: an object in which just one member has its key, or a list with
just its value. -/
inductive Raw.Record (key : String) (P : Raw → α → Prop) : Raw → α → Prop
  | list {v : Raw} {x : α} (h : P v x) : Record key P (.list [v]) x
  | object {ms : List (Bytes × Raw)} {x : α} (h : Sole key P ms x) : Record key P (.object ms) x

variable {key : String} {P : Raw → α → Prop} {x : α}

theorem Sole.of_key {k : Bytes} {v : Raw} {ms : List (Bytes × Raw)} (hk : Spells k key) (h : P v x)
    (hms : ∀ m ∈ ms, Other key m) : Sole key P ((k, v) :: ms) x :=
  ⟨[], k, v, ms, rfl, hk, h, hms⟩

theorem Sole.of_other {m : Bytes × Raw} {ms : List (Bytes × Raw)} (hm : Other key m)
    (h : Sole key P ms x) : Sole key P (m :: ms) x := by
  obtain ⟨before, k, v, after, rfl, hk, hv, hothers⟩ := h
  exact ⟨m :: before, k, v, after, rfl, hk, hv, List.forall_mem_cons.mpr ⟨hm, hothers⟩⟩

theorem Sole.cases {m : Bytes × Raw} {ms : List (Bytes × Raw)} (h : Sole key P (m :: ms) x) :
    (Spells m.1 key ∧ P m.2 x ∧ ∀ m ∈ ms, Other key m) ∨ (Other key m ∧ Sole key P ms x) := by
  obtain ⟨before, k, v, after, heq, hk, hv, hothers⟩ := h
  cases before with
  | nil =>
    cases heq
    exact .inl ⟨hk, hv, hothers⟩
  | cons m' before =>
    cases heq
    obtain ⟨hm, hothers⟩ := List.forall_mem_cons.mp hothers
    exact .inr ⟨hm, before, k, v, after, rfl, hk, hv, hothers⟩

theorem record_singleton_iff {k : Bytes} {v : Raw} (hk : Spells k key) :
    Raw.Record key P (.object [(k, v)]) x ↔ P v x := by
  constructor
  · rintro (_ | ⟨h⟩)
    rcases h.cases with ⟨-, hv, -⟩ | ⟨-, before, k', v', after, heq, -⟩
    · exact hv
    · simp at heq
  · exact fun h => .object (.of_key hk h (List.forall_mem_nil _))

/-! ### Members one after another -/

/-- What leads from where reading stands to the next key: nothing at first, then a comma. -/
inductive Lead : Bool → (bytes rest : Bytes) → Prop
  | first {s : Bytes} : Lead true s s
  | comma {s a : Bytes} (h : Blanks s (0x2c :: a)) : Lead false s a

theorem Lead.length_le {first : Bool} (h : Lead first s r) : r.length ≤ s.length := by
  cases h with
  | first => exact Nat.le_refl _
  | comma h => exact Nat.le_of_succ_le h.length_le

/-- The members of an object from one of them on, and the closing bracket. -/
def Follows : Bool → List (Bytes × Raw) → (bytes rest : Bytes) → Prop
  | _, [], s, r => Blanks s (0x7d :: r)
  | first, (k, v) :: ms, s, r => ∃ a c d e, Lead first s a ∧ Bracket.object.Key k a c ∧
      Blanks c d ∧ Derives (.value v) d e ∧ Follows false ms e r

theorem follows_iff {ms : List (Bytes × Raw)} :
    Follows true ms s r ↔ Derives (.items .object ms) s (0x7d :: r) := by
  induction ms generalizing s with
  | nil => exact ⟨.noItem, blanks_of_noItem⟩
  | cons m ms ih =>
    obtain ⟨k, v⟩ := m
    constructor
    · rintro ⟨a, c, d, e, lead, hkey, blanks, value, rest⟩
      cases lead
      cases ms with
      | nil => exact .lastItem hkey blanks value rest
      | cons m ms =>
        obtain ⟨a, c, d, e, lead, rest⟩ := rest
        cases lead with
        | comma h => exact .item hkey blanks value h (ih.mp ⟨a, c, d, e, .first, rest⟩)
    · intro h
      cases h with
      | lastItem hkey blanks value after => exact ⟨_, _, _, _, .first, hkey, blanks, value, after⟩
      | item hkey blanks value after rest =>
        obtain ⟨a, c, d, e, lead, rest⟩ := ih.mpr rest
        cases lead
        exact ⟨_, _, _, _, .first, hkey, blanks, value, _, c, d, e, .comma after, rest⟩

/-- Reading the text of a key, as the last step towards it. -/
theorem readKey_eq_ok {k : Option String} {u : Bytes}
    (h : (do let (text, rest) ← readText u; Except.ok (some text, rest)) = .ok (k, r)) :
    ∃ text body, k = some text ∧ Spells body text ∧ u = body ++ 0x22 :: r := by
  simp only [bind, Except.bind] at h
  split at h
  · contradiction
  · rename_i p hp
    cases h
    obtain ⟨body, hbody, rfl⟩ := spells_of_readText hp
    exact ⟨_, body, rfl, hbody, rfl⟩

/-- The next key is a string where one is due, and there is none before a closing brace. -/
theorem key_of_nextKey {first : Bool} {k : Option String} (h : nextKey? first s = .ok (k, r)) :
    k = none ∧ Blanks s (0x7d :: r) ∨ ∃ text body a, k = some text ∧ Lead first s a ∧
      Spells body text ∧ Blanks a (0x22 :: (body ++ 0x22 :: r)) := by
  have hblanks := blanks_skipBlanks s
  rw [nextKey?.eq_def] at h
  dsimp only at h
  split at h
  · contradiction
  · rename_i u hu
    cases h
    exact .inl ⟨rfl, hu ▸ hblanks⟩
  · rename_i c u _ hu
    rw [hu] at hblanks
    split at h
    · rename_i hfirst
      subst hfirst
      split at h
      · rename_i hc
        obtain ⟨text, body, rfl, hbody, rfl⟩ := readKey_eq_ok h
        exact .inr ⟨text, body, s, rfl, .first, hbody, hc ▸ hblanks⟩
      · contradiction
    · rename_i hfirst
      rw [Bool.not_eq_true] at hfirst
      subst hfirst
      split at h
      · rename_i hc
        have hblanks' := blanks_skipBlanks u
        split at h
        · contradiction
        · rename_i w hw
          obtain ⟨text, body, rfl, hbody, rfl⟩ := readKey_eq_ok h
          exact .inr ⟨text, body, u, rfl, .comma (hc ▸ hblanks), hbody, hw ▸ hblanks'⟩
        · contradiction
        · contradiction
      · contradiction

theorem nextKey?_closing (first : Bool) (h : Blanks s (0x7d :: r)) :
    nextKey? first s = .ok (none, r) := by
  simp only [nextKey?, h.skipBlanks_cons (by decide)]

theorem Lead.nextKey? {first : Bool} {text : String} {a body : Bytes} (lead : Lead first s a)
    (hbody : Spells body text) (h : Blanks a (0x22 :: (body ++ 0x22 :: r))) :
    nextKey? first s = .ok (some text, r) := by
  have hquote := h.skipBlanks_cons (by decide)
  cases lead with
  | first => simp [Json.nextKey?, hquote, hbody.readText, bind, Except.bind]
  | comma comma =>
    have hcomma := comma.skipBlanks_cons (by decide)
    simp [Json.nextKey?, hcomma, hquote, hbody.readText, bind, Except.bind]

/-- What remains to be found: nothing more when there is a value already. -/
def Remains (key : String) (P : Raw → α → Prop) :
    Option α → List (Bytes × Raw) → α → Prop
  | some y, ms, x => x = y ∧ ∀ m ∈ ms, Other key m
  | none, ms, x => Sole key P ms x

theorem Remains.of_key {k : Bytes} {v : Raw} {y : α} {ms : List (Bytes × Raw)}
    (hk : Spells k key) (hv : P v y) (h : Remains key P (some y) ms x) :
    Remains key P none ((k, v) :: ms) x := by
  obtain ⟨rfl, hothers⟩ := h
  exact Sole.of_key hk hv hothers

theorem Remains.of_other {m : Bytes × Raw} {found : Option α} {ms : List (Bytes × Raw)}
    (hm : Other key m) (h : Remains key P found ms x) : Remains key P found (m :: ms) x := by
  cases found with
  | none => exact Sole.of_other hm h
  | some y => exact ⟨h.1, List.forall_mem_cons.mpr ⟨hm, h.2⟩⟩

theorem Remains.cases {m : Bytes × Raw} {found : Option α} {ms : List (Bytes × Raw)}
    (h : Remains key P found (m :: ms) x) :
    (∃ y, found = none ∧ Spells m.1 key ∧ P m.2 y ∧ Remains key P (some y) ms x) ∨
      (Other key m ∧ Remains key P found ms x) := by
  cases found with
  | none =>
    rcases Sole.cases h with ⟨hk, hv, hothers⟩ | h
    · exact .inl ⟨x, rfl, hk, hv, rfl, hothers⟩
    · exact .inr h
  | some y =>
    obtain ⟨rfl, hothers⟩ := h
    obtain ⟨hm, hothers⟩ := List.forall_mem_cons.mp hothers
    exact .inr ⟨hm, rfl, hothers⟩

variable {value : Reader α} {first : Bool} {text : String} {a body c c' d e : Bytes}

theorem Follows.cons {v : Raw} {ms : List (Bytes × Raw)} (lead : Lead first s a)
    (hbody : Spells body text) (before : Blanks a (0x22 :: (body ++ 0x22 :: c)))
    (colon : Blanks c (0x3a :: c')) (blanks : Blanks c' d) (hv : Derives (.value v) d e)
    (rest : Follows false ms e r) : Follows first ((body, v) :: ms) s r :=
  ⟨a, c', d, e, lead, .member before hbody.body colon, blanks, hv, rest⟩

theorem members_of_readMembers (hvalue : value.Accepts P) {n : Nat} {found : Option α}
    (h : readMembers key value n found first s = .ok (x, r)) :
    ∃ ms, Follows first ms s r ∧ Remains key P found ms x := by
  induction n generalizing found first s with
  | zero => contradiction
  | succ n ih =>
    rw [readMembers] at h
    simp only [bind, Except.bind] at h
    split at h
    · contradiction
    rename_i p hp
    split at h
    · rename_i rest
      rcases key_of_nextKey hp with ⟨-, hclosing⟩ | ⟨text, body, a, hnone, -⟩
      · cases found with
        | none => contradiction
        | some y =>
          cases h
          exact ⟨[], hclosing, rfl, by simp⟩
      · contradiction
    · rename_i k rest
      rcases key_of_nextKey hp with ⟨hnone, -⟩ | ⟨text, body, a, hk, lead, hbody, before⟩
      · contradiction
      obtain rfl := Option.some.inj hk
      split at h
      · rename_i hkey
        subst hkey
        split at h
        · contradiction
        rename_i hfound
        split at h
        · contradiction
        rename_i c hcolon
        split at h
        · contradiction
        rename_i q hq
        obtain ⟨v, d, blanks, hd, hv⟩ := hvalue.sound hq
        obtain ⟨ms, hms, hremains⟩ := ih h
        have hnone : found = none := by simpa using hfound
        exact ⟨_, .cons lead hbody before (blanks_of_skipColon hcolon) blanks hd hms,
          hnone ▸ hremains.of_key hbody hv⟩
      · rename_i hkey
        split at h
        · contradiction
        rename_i c hcolon
        split at h
        · contradiction
        rename_i e he
        obtain ⟨v, d, blanks, hd⟩ := value_of_skipValue he
        obtain ⟨ms, hms, hremains⟩ := ih h
        exact ⟨_, .cons lead hbody before (blanks_of_skipColon hcolon) blanks hd hms,
          hremains.of_other ⟨_, hbody, hkey⟩⟩

theorem Follows.stops {ms : List (Bytes × Raw)} (h : Follows false ms s r) : Stops s := by
  cases ms with
  | nil => exact Blanks.stops h (stops_cons r (by decide))
  | cons m ms =>
    obtain ⟨a, c, d, e, lead, -⟩ := h
    cases lead with
    | comma comma => exact comma.stops (stops_cons a (by decide))

theorem Follows.readMembers (hvalue : value.Accepts P) {ms : List (Bytes × Raw)} {n : Nat}
    {found : Option α} (h : Follows first ms s r) (hms : Remains key P found ms x)
    (hn : s.length < n) : readMembers key value n found first s = .ok (x, r) := by
  induction ms generalizing found first s n with
  | nil =>
    obtain ⟨n, rfl⟩ : ∃ m, n = m + 1 := ⟨n - 1, by omega⟩
    cases found with
    | none =>
      obtain ⟨before, k, v, after, heq, -⟩ := hms
      simp at heq
    | some y =>
      obtain ⟨rfl, -⟩ := hms
      rw [Json.readMembers, nextKey?_closing first h]
      rfl
  | cons m ms ih =>
    obtain ⟨n, rfl⟩ : ∃ m, n = m + 1 := ⟨n - 1, by omega⟩
    obtain ⟨k, v⟩ := m
    obtain ⟨a, c, d, e, lead, hkey, blanks, hv, rest⟩ := h
    have hstops := rest.stops
    have hlength : e.length < n := by
      obtain ⟨k, hk, -⟩ := hv.passed hstops
      have := lead.length_le
      have := hkey.length_le
      have := blanks.length_le
      omega
    cases hkey with
    | member before hbody colon =>
      rcases hms.cases with ⟨y, rfl, hk, hy, hms⟩ | ⟨⟨text, htext, hne⟩, hms⟩
      · have hread := hvalue.complete blanks hv hy hstops
        rw [Json.readMembers, lead.nextKey? hk before]
        simp only [bind, Except.bind, if_true, Option.isSome_none, Bool.false_eq_true, if_false,
          colon.skipColon, hread]
        exact ih rest hms hlength
      · have hskip := hv.skipValue blanks hstops
        rw [Json.readMembers, lead.nextKey? htext before]
        simp only [bind, Except.bind, if_neg hne, colon.skipColon, hskip]
        exact ih rest hms hlength

/-! ### Lists of one element -/

theorem Blanks.endList (h : Blanks s (0x5d :: r)) : endList s = .ok r := by
  simp only [Json.endList, h.skipBlanks_cons (by decide)]

theorem blanks_of_endList (h : endList s = .ok r) : Blanks s (0x5d :: r) := by
  have hblanks := blanks_skipBlanks s
  rw [Json.endList] at h
  split at h
  · contradiction
  · rename_i u hu
    cases h
    exact hu ▸ hblanks
  · split at h <;> contradiction
  · contradiction

theorem element_of_items {v : Raw} (h : Derives (.items .list [([], v)]) s r) :
    ∃ d e, Blanks s d ∧ Derives (.value v) d e ∧ Blanks e r := by
  cases h with
  | lastItem hkey blanks value after =>
    cases hkey
    exact ⟨_, _, blanks, value, after⟩

/-! ### Records and documents -/

theorem accepts_record {name : String} (hvalue : value.Accepts P) :
    Reader.Accepts (readRecord name key value) (Raw.Record key P) where
  sound {s r x} h := by
    have hblanks := blanks_skipBlanks s
    rw [readRecord.eq_def] at h
    split at h
    · contradiction
    · rename_i u hu
      rw [hu] at hblanks
      have hinner := blanks_skipBlanks u
      split at h
      · contradiction
      · contradiction
      · simp only [bind, Except.bind] at h
        split at h
        · contradiction
        rename_i q hq
        split at h
        · contradiction
        rename_i e he
        cases h
        obtain ⟨v, d, blanks, hd, hv⟩ := hvalue.sound hq
        have hitems : Derives (.items .list [([], v)]) u (0x5d :: r) :=
          .lastItem .element (hinner.trans blanks) hd (blanks_of_endList he)
        exact ⟨.list [v], _, hblanks, .list hitems, .list hv⟩
    · rename_i u hu
      rw [hu] at hblanks
      obtain ⟨ms, hms, hsole⟩ := members_of_readMembers hvalue h
      exact ⟨.object ms, _, hblanks, .object (follows_iff.mp hms), .object hsole⟩
    · contradiction
  complete {s a r v x} blanks h hP hr := by
    cases hP with
    | list hv =>
      cases h with
      | list h =>
        obtain ⟨d, e, hd, hvalue', he⟩ := element_of_items h
        obtain ⟨c, d', rfl, hblank, hclosing⟩ := hvalue'.exists_cons
        have hread := hvalue.complete .done hvalue' hv (he.stops (stops_cons r (by decide)))
        simp only [readRecord, blanks.skipBlanks_cons (by decide : isBlank 0x5b = false),
          hd.skipBlanks_cons hblank]
        simp [hread, he.endList, bind, Except.bind, hclosing]
    | object hsole =>
      cases h with
      | object h =>
        rw [readRecord, blanks.skipBlanks_cons (by decide)]
        exact (follows_iff.mpr h).readMembers hvalue hsole (Nat.lt_succ_self _)

/-- A document is read just when the grammar derives it and its value is accepted. -/
theorem readDocument_eq_ok_iff (hvalue : value.Accepts P) :
    readDocument value s = .ok x ↔ ∃ v, Document v s ∧ P v x := by
  rw [readDocument]
  constructor
  · intro h
    simp only [bind, Except.bind, Except.mapError] at h
    split at h
    · contradiction
    rename_i y hy
    cases h
    split at hy
    · contradiction
    rename_i q hq
    split at hy
    · rename_i hend
      cases hy
      obtain ⟨v, a, blanks, hv, hP⟩ := hvalue.sound hq
      exact ⟨v, ⟨a, q.2, blanks, hv, hend ▸ blanks_skipBlanks q.2⟩, hP⟩
    · contradiction
  · rintro ⟨v, ⟨a, r, blanks, hv, hend⟩, hP⟩
    have hread := hvalue.complete blanks hv hP (hend.stops stops_nil)
    have hrest : skipBlanks r = [] := hend.skipBlanks_eq
    simp only [hread, bind, Except.bind, hrest, Except.mapError]

end RegressionGate.Json
