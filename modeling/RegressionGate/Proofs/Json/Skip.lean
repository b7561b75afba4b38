import RegressionGate.Proofs.Json.Number
import RegressionGate.Proofs.Json.Text

/-! Passing over a value: the reader with a stack of open brackets passes what the grammar derives,
and nothing else. What a stack still calls for is stated by `Closes`. -/

namespace RegressionGate.Json

variable {s r : Bytes}

/-! ### Blanks, words and keys -/

theorem blanks_skipBlanks (s : Bytes) : Blanks s (skipBlanks s) := by
  induction s with
  | nil => exact .done
  | cons b s ih =>
    rw [skipBlanks, List.dropWhile_cons]
    split
    · rename_i hb
      exact .blank hb ih
    · exact .done

theorem Blanks.skipBlanks_eq (h : Blanks s r) : skipBlanks s = skipBlanks r := by
  induction h with
  | done => rfl
  | blank hb rest ih => rw [← ih, skipBlanks, List.dropWhile_cons_of_pos hb, skipBlanks]

theorem skipBlanks_cons {c : UInt8} (h : isBlank c = false) (s : Bytes) :
    skipBlanks (c :: s) = c :: s :=
  List.dropWhile_cons_of_neg (by simp [h])

theorem Blanks.skipBlanks_cons {c : UInt8} (h : Blanks s (c :: r)) (hc : isBlank c = false) :
    skipBlanks s = c :: r :=
  h.skipBlanks_eq.trans (Json.skipBlanks_cons hc r)

theorem Blanks.trans {t : Bytes} (h : Blanks s r) (h' : Blanks r t) : Blanks s t := by
  induction h with
  | done => exact h'
  | blank hb rest ih => exact .blank hb (ih h')

theorem Blanks.length_le (h : Blanks s r) : r.length ≤ s.length := by
  induction h with
  | done => exact Nat.le_refl _
  | blank hb rest ih => exact Nat.le_succ_of_le ih

theorem not_continuesNumber_of_isBlank {b : UInt8} (h : isBlank b) : continuesNumber b = false := by
  simp only [isBlank, Bool.or_eq_true, decide_eq_true_eq] at h
  rcases h with ((rfl | rfl) | rfl) | rfl <;> decide

theorem Blanks.stops (h : Blanks s r) (hr : Stops r) : Stops s := by
  cases h with
  | done => exact hr
  | blank hb => exact stops_cons _ (not_continuesNumber_of_isBlank hb)

theorem skipWord_append (letters r : Bytes) : skipWord letters (letters ++ r) = .ok r := by
  induction letters with
  | nil => rfl
  | cons l ls ih => rw [List.cons_append, skipWord, if_pos rfl, ih]

theorem eq_append_of_skipWord {letters : Bytes} (h : skipWord letters s = .ok r) :
    s = letters ++ r := by
  fun_induction skipWord letters s with
  | case1 =>
    cases h
    rfl
  | case2 ls c s ih => rw [ih h, List.cons_append]
  | _ => contradiction

theorem Blanks.skipColon (h : Blanks s (0x3a :: r)) : skipColon s = .ok r := by
  simp only [Json.skipColon, h.skipBlanks_cons (by decide)]

theorem blanks_of_skipColon (h : skipColon s = .ok r) : Blanks s (0x3a :: r) := by
  rw [skipColon] at h
  split at h
  · rename_i hcolon
    cases h
    exact hcolon ▸ blanks_skipBlanks s
  · contradiction

variable {b : Bracket} {bs : List Bracket}

theorem Bracket.Key.skipKey {key : Bytes} (h : b.Key key s r) : b.skipKey s = .ok r := by
  cases h with
  | element => rfl
  | member before body colon =>
    simp only [Bracket.skipKey, before.skipBlanks_cons (by decide), body.skim, bind, Except.bind,
      colon.skipColon]

theorem key_of_skipKey (h : b.skipKey s = .ok r) : ∃ key, b.Key key s r := by
  cases b with
  | list =>
    cases h
    exact ⟨[], .element⟩
  | object =>
    rw [Bracket.skipKey] at h
    split at h
    · rename_i a hquote
      simp only [bind, Except.bind] at h
      split at h
      · contradiction
      · rename_i c hskim
        obtain ⟨body, hbody, rfl⟩ := body_of_skim hskim
        exact ⟨body, .member (hquote ▸ blanks_skipBlanks s) hbody (blanks_of_skipColon h)⟩
    · contradiction

theorem Bracket.Key.length_le {key : Bytes} (h : b.Key key s r) : r.length ≤ s.length := by
  cases h with
  | element => exact Nat.le_refl _
  | member before body colon =>
    have hbefore := before.length_le
    have hcolon := colon.length_le
    simp only [List.length_cons, List.length_append] at hbefore hcolon
    omega

/-! ### Acceptance -/

/-- What becomes of a step: the reader is done when no bracket is left open. -/
def resume (n : Nat) : List Bracket × Bytes → Except Fault Bytes
  | ([], r) => .ok r
  | (bs, r) => skipTokens n bs r

theorem skipTokens_succ (n : Nat) (bs : List Bracket) (s : Bytes) :
    skipTokens (n + 1) bs s = skipToken bs s >>= resume n := rfl

theorem Blanks.skipTokens_eq (h : Blanks s r) (n : Nat) (bs : List Bracket) :
    skipTokens (n + 1) bs s = skipTokens (n + 1) bs r := by
  rw [skipTokens_succ, skipTokens_succ, skipToken.eq_def, h.skipBlanks_eq, ← skipToken.eq_def]

theorem leave_closing (h : Blanks s (b.closing :: r)) : leave (b :: bs) s = leave bs r := by
  have hblank : isBlank b.closing = false := by cases b <;> decide
  simp only [leave, h.skipBlanks_cons hblank, if_true]

theorem leave_comma {a : Bytes} (h : Blanks s (0x2c :: r)) (hkey : b.skipKey r = .ok a) :
    leave (b :: bs) s = .ok (b :: bs, a) := by
  have hcomma : ¬(0x2c : UInt8) = b.closing := by cases b <;> decide
  simp only [leave, h.skipBlanks_cons (by decide), if_neg hcomma, if_true, hkey, bind, Except.bind]

theorem enter_closing (h : Blanks s (b.closing :: r)) : enter b bs s = leave bs r := by
  have hblank : isBlank b.closing = false := by cases b <;> decide
  simp only [enter, h.skipBlanks_cons hblank, if_true]

theorem isBlank_of_number {c : UInt8} (h : c = 0x2d ∨ isDigit c) : isBlank c = false := by
  rcases h with rfl | h
  · decide
  · cases hblank : isBlank c with
    | false => rfl
    | true =>
      have := not_continuesNumber_of_isBlank hblank
      simp [continuesNumber, h] at this

/-- A value begins with a byte that is no blank and closes nothing. -/
theorem Derives.exists_cons {v : Raw} (h : Derives (.value v) s r) :
    ∃ c s', s = c :: s' ∧ isBlank c = false ∧ c ≠ 0x5d := by
  cases h with
  | number h =>
    obtain ⟨c, s', rfl, hc⟩ := h.exists_cons
    refine ⟨c, s', rfl, isBlank_of_number hc, ?_⟩
    rcases hc with rfl | hc
    · decide
    · exact ne_of_isDigit hc (by decide)
  | _ => exact ⟨_, _, rfl, by decide, by decide⟩

/-- Opening a bracket leads to the first value in it. -/
theorem enter_item (bs : List Bracket) {key c d e : Bytes} {v : Raw} (hkey : b.Key key s c)
    (hblanks : Blanks c d) (hvalue : Derives (.value v) d e) :
    ∃ a, enter b bs s = .ok (b :: bs, a) ∧ Blanks a d := by
  obtain ⟨x, d', rfl, hblank, hclosing⟩ := hvalue.exists_cons
  cases hkey with
  | element =>
    refine ⟨_, ?_, .done⟩
    simp [enter, hblanks.skipBlanks_cons hblank, Bracket.closing, hclosing, Bracket.skipKey, bind,
      Except.bind]
  | member before h colon =>
    refine ⟨_, ?_, hblanks⟩
    have hquote : isBlank 0x22 = false := by decide
    have hskip := (Bracket.Key.member .done h colon).skipKey
    simp [enter, before.skipBlanks_cons hquote, Bracket.closing, hskip, bind, Except.bind]

/-- A phrase is passed when a number of steps lead behind it: behind a value, or, from the first
value between brackets, behind the closing bracket. Each step takes a byte at least. -/
def Phrase.Passed : Phrase → (bytes rest : Bytes) → Prop
  | value _, s, r => Stops r → ∃ k, k + r.length < s.length ∧
      ∀ bs n, skipTokens (n + k + 1) bs s = leave bs r >>= resume n
  | items _ [], _, _ => True
  | items b ((key, _) :: _), s, r => ∀ u, r = b.closing :: u →
      ∃ (v : Raw) (c d e : Bytes) (k : Nat), b.Key key s c ∧ Blanks c d ∧
        Derives (.value v) d e ∧ k + u.length < d.length ∧
          ∀ bs n, skipTokens (n + k + 1) (b :: bs) d = leave bs u >>= resume n

theorem stops_closing (b : Bracket) (u : Bytes) : Stops (b.closing :: u) :=
  stops_cons u (by cases b <;> decide)

/-- A word, number or string is passed in one step. -/
theorem passed_token {v : Raw} (hlength : r.length < s.length)
    (h : ∀ bs, skipToken bs s = leave bs r) : Phrase.Passed (.value v) s r := by
  refine fun _ => ⟨0, by omega, fun bs n => ?_⟩
  rw [Nat.add_zero, skipTokens_succ, h]

/-- What stands between brackets is passed with them. -/
theorem passed_bracket {v : Raw} {is : List (Bytes × Raw)} {opening : UInt8}
    (hopen : ∀ bs, skipToken bs (opening :: s) = enter b bs s)
    (hnone : is = [] → Blanks s (b.closing :: r))
    (h : Phrase.Passed (.items b is) s (b.closing :: r)) :
    Phrase.Passed (.value v) (opening :: s) r := by
  cases is with
  | nil =>
    have hblanks := hnone rfl
    have hlength := hblanks.length_le
    refine passed_token ?_ fun bs => (hopen bs).trans (enter_closing hblanks)
    rw [List.length_cons] at hlength ⊢
    omega
  | cons i is =>
    intro _
    obtain ⟨v, c, d, e, k, hkey, hblanks, hvalue, hlength, hsteps⟩ := h r rfl
    have hc := hkey.length_le
    have hd := hblanks.length_le
    refine ⟨k + 1, ?_, fun bs n => ?_⟩
    · rw [List.length_cons]
      omega
    · obtain ⟨a, henter, ha⟩ := enter_item bs hkey hblanks hvalue
      rw [skipTokens_succ, hopen, henter, ← hsteps, ← ha.skipTokens_eq]
      rfl

theorem skipToken_number {c : UInt8} (h : c = 0x2d ∨ isDigit c) (s : Bytes) :
    skipToken bs (c :: s) =
      (scanLiteral .invalidNumber (c :: s)).bind fun p => leave bs p.2 := by
  have hne (d : UInt8) (hd : isDigit d = false) (hd' : (0x2d : UInt8) ≠ d) : c ≠ d := by
    rcases h with rfl | h
    · exact hd'
    · exact ne_of_isDigit h hd
  simp only [skipToken, skipBlanks_cons (isBlank_of_number h),
    if_neg (hne 0x6e (by decide) (by decide)), if_neg (hne 0x74 (by decide) (by decide)),
    if_neg (hne 0x66 (by decide) (by decide)), if_neg (hne 0x22 (by decide) (by decide)),
    if_neg (hne 0x5b (by decide) (by decide)), if_neg (hne 0x7b (by decide) (by decide)), if_pos h]
  rfl

theorem blanks_of_noItem (h : Derives (.items b []) s r) : Blanks s r := by
  cases h with
  | noItem h => exact h

theorem Derives.passed {p : Phrase} (h : Derives p s r) : p.Passed s r := by
  induction h with
  | @nullWord r =>
    refine passed_token (by simp; omega) fun bs => ?_
    have hword : skipWord [0x75, 0x6c, 0x6c] (0x75 :: 0x6c :: 0x6c :: r) = .ok r :=
      skipWord_append _ r
    rw [skipToken, skipBlanks_cons (by decide)]
    simp [hword, bind, Except.bind]
  | @trueWord r =>
    refine passed_token (by simp; omega) fun bs => ?_
    have hword : skipWord [0x72, 0x75, 0x65] (0x72 :: 0x75 :: 0x65 :: r) = .ok r :=
      skipWord_append _ r
    rw [skipToken, skipBlanks_cons (by decide)]
    simp [hword, bind, Except.bind]
  | @falseWord r =>
    refine passed_token (by simp; omega) fun bs => ?_
    have hword : skipWord [0x61, 0x6c, 0x73, 0x65] (0x61 :: 0x6c :: 0x73 :: 0x65 :: r) = .ok r :=
      skipWord_append _ r
    rw [skipToken, skipBlanks_cons (by decide)]
    simp [hword, bind, Except.bind]
  | @number l s r h =>
    intro hr
    obtain ⟨c, s', rfl, hc⟩ := h.exists_cons
    refine passed_token (v := .number l) h.length_lt (fun bs => ?_) hr
    rw [skipToken_number hc, h.scanLiteral hr]
    rfl
  | string h =>
    refine passed_token (by simp; omega) fun bs => ?_
    rw [skipToken, skipBlanks_cons (by decide)]
    simp [h.skim, bind, Except.bind]
  | @list vs s r h ih =>
    refine passed_bracket (fun bs => ?_) (fun hnone => ?_) ih
    · rw [skipToken, skipBlanks_cons (by decide)]
      simp
    · rw [hnone] at h
      exact blanks_of_noItem h
  | @object ms s r h ih =>
    refine passed_bracket (fun bs => ?_) (fun hnone => ?_) ih
    · rw [skipToken, skipBlanks_cons (by decide)]
      simp
    · rw [hnone] at h
      exact blanks_of_noItem h
  | noItem => trivial
  | lastItem before blanks value after ih =>
    rintro u rfl
    obtain ⟨k, hlength, hsteps⟩ := ih (after.stops (stops_closing _ u))
    refine ⟨_, _, _, _, k, before, blanks, value, ?_, fun bs n => ?_⟩
    · have := after.length_le
      rw [List.length_cons] at this
      omega
    · rw [hsteps, leave_closing after]
  | @item b key v i is s c d e f r before blanks value after rest ih ihrest =>
    rintro u rfl
    obtain ⟨k, hlength, hsteps⟩ := ih (after.stops (stops_cons f (by decide)))
    obtain ⟨key', v'⟩ := i
    obtain ⟨w, c', d', e', k', hkey', hblanks', hvalue', hlength', hsteps'⟩ := ihrest u rfl
    refine ⟨_, _, _, _, k + k' + 1, before, blanks, value, ?_, fun bs n => ?_⟩
    · have hf := after.length_le
      have hc' := hkey'.length_le
      have hd' := hblanks'.length_le
      rw [List.length_cons] at hf
      omega
    · have hfuel : n + (k + k' + 1) + 1 = n + k' + 1 + k + 1 := by omega
      rw [hfuel, hsteps, leave_comma after hkey'.skipKey, ← hsteps', ← hblanks'.skipTokens_eq]
      rfl

/-- Whatever the grammar derives is passed over. -/
theorem Derives.skipValue {v : Raw} {a : Bytes} (blanks : Blanks s a) (h : Derives (.value v) a r)
    (hr : Stops r) : skipValue s = .ok r := by
  obtain ⟨k, hlength, hsteps⟩ := h.passed hr
  have hle := blanks.length_le
  have hfuel : s.length + 1 = s.length - k + k + 1 := by omega
  rw [Json.skipValue, hfuel, blanks.skipTokens_eq, hsteps]
  rfl

/-! ### Nothing else -/

/-- What open brackets call for behind a value: further values and the closing brackets. -/
inductive Closes : List Bracket → (bytes rest : Bytes) → Prop
  | done {r : Bytes} : Closes [] r r
  | close {b : Bracket} {bs : List Bracket} {s a r : Bytes} (before : Blanks s (b.closing :: a))
      (rest : Closes bs a r) : Closes (b :: bs) s r
  | next {b : Bracket} {bs : List Bracket} {key : Bytes} {v : Raw} {s a c d e r : Bytes}
      (before : Blanks s (0x2c :: a)) (key : b.Key key a c) (blanks : Blanks c d)
      (value : Derives (.value v) d e) (rest : Closes (b :: bs) e r) : Closes (b :: bs) s r

/-- What is called for in a state of the reader: nothing when no bracket is open, else a value and
what follows it. -/
inductive Awaits : List Bracket → (bytes rest : Bytes) → Prop
  | done {r : Bytes} : Awaits [] r r
  | value {b : Bracket} {bs : List Bracket} {v : Raw} {s a c r : Bytes} (blanks : Blanks s a)
      (value : Derives (.value v) a c) (rest : Closes (b :: bs) c r) : Awaits (b :: bs) s r

theorem closes_of_leave {bs' : List Bracket} {s' : Bytes} (h : leave bs s = .ok (bs', s'))
    (hr : Awaits bs' s' r) : Closes bs s r := by
  fun_induction leave bs s with
  | case1 s =>
    cases h
    cases hr
    exact .done
  | case3 b bs s u hu ih => exact .close (hu ▸ blanks_skipBlanks s) (ih h)
  | case4 b bs s u hu hclosing =>
    simp only [bind, Except.bind] at h
    split at h
    · contradiction
    · rename_i a hkey
      cases h
      obtain ⟨key, hkey⟩ := key_of_skipKey hkey
      cases hr with
      | value blanks value rest =>
        exact .next (hu ▸ blanks_skipBlanks s) hkey blanks value rest
  | _ => contradiction

/-- Behind a value between brackets stand the further items and the closing bracket. -/
theorem Closes.items (h : Closes (b :: bs) s r) :
    ∃ is u, Closes bs u r ∧ ∀ {key a c d : Bytes} {v : Raw}, b.Key key a c → Blanks c d →
      Derives (.value v) d s → Derives (.items b ((key, v) :: is)) a (b.closing :: u) := by
  generalize hbs : b :: bs = open_ at h
  induction h with
  | done => contradiction
  | close before rest =>
    cases hbs
    exact ⟨[], _, rest, fun hkey hblanks hvalue => .lastItem hkey hblanks hvalue before⟩
  | next before key blanks value rest ih =>
    cases hbs
    obtain ⟨is, u, hu, hitems⟩ := ih rfl
    exact ⟨_, u, hu, fun hkey hblanks hvalue =>
      .item hkey hblanks hvalue before (hitems key blanks value)⟩

theorem Bracket.Key.of_blanks {key a c d : Bytes} (h : b.Key key a c) (before : Blanks s a)
    (after : Blanks c d) : ∃ c', b.Key key s c' ∧ Blanks c' d := by
  cases h with
  | element => exact ⟨s, .element, before.trans after⟩
  | member blanks body colon => exact ⟨c, .member (before.trans blanks) body colon, after⟩

theorem items_of_enter {bs' : List Bracket} {s' : Bytes} (h : enter b bs s = .ok (bs', s'))
    (hr : Awaits bs' s' r) : ∃ is u, Derives (.items b is) s (b.closing :: u) ∧ Closes bs u r := by
  rw [enter.eq_def] at h
  split at h
  · contradiction
  · rename_i c u hu
    split at h
    · rename_i hclosing
      rw [hclosing] at hu
      exact ⟨[], u, .noItem (hu ▸ blanks_skipBlanks s), closes_of_leave h hr⟩
    · simp only [bind, Except.bind] at h
      split at h
      · contradiction
      · rename_i a hkey
        cases h
        cases hr with
        | value blanks value rest =>
          obtain ⟨key, hkey⟩ := key_of_skipKey hkey
          obtain ⟨is, w, hw, hitems⟩ := rest.items
          obtain ⟨d, hkey, blanks⟩ := hkey.of_blanks (hu ▸ blanks_skipBlanks s) blanks
          exact ⟨_, w, hitems hkey blanks value, hw⟩

/-- The elements of a list have no keys. -/
theorem Derives.eq_map_of_list {p : Phrase} {is : List (Bytes × Raw)} (h : Derives p s r)
    (hp : p = .items .list is) : is = (is.map Prod.snd).map fun v => ([], v) := by
  induction h generalizing is with
  | noItem =>
    cases hp
    rfl
  | lastItem before =>
    cases hp
    cases before
    rfl
  | item before _ _ _ _ _ ih =>
    cases hp
    cases before
    rw [List.map_cons, List.map_cons, ← ih rfl]
  | _ => contradiction

/-- A step passes a value, or opens one, that the state left behind closes. -/
theorem value_of_skipToken {bs' : List Bracket} {s' : Bytes}
    (h : skipToken bs s = .ok (bs', s')) (hr : Awaits bs' s' r) :
    ∃ v a c, Blanks s a ∧ Derives (.value v) a c ∧ Closes bs c r := by
  have hblanks := blanks_skipBlanks s
  rw [skipToken.eq_def] at h
  split at h
  · contradiction
  · rename_i c u hu
    rw [hu] at hblanks
    have hword {letters : Bytes} (h : (do leave bs (← skipWord letters u)) = .ok (bs', s')) :
        ∃ c, u = letters ++ c ∧ Closes bs c r := by
      simp only [bind, Except.bind] at h
      split at h
      · contradiction
      · rename_i t ht
        exact ⟨t, eq_append_of_skipWord ht, closes_of_leave h hr⟩
    split at h
    · rename_i hc
      obtain ⟨t, rfl, ht⟩ := hword h
      exact ⟨.null, _, t, hblanks, hc ▸ .nullWord, ht⟩
    split at h
    · rename_i hc
      obtain ⟨t, rfl, ht⟩ := hword h
      exact ⟨.boolean true, _, t, hblanks, hc ▸ .trueWord, ht⟩
    split at h
    · rename_i hc
      obtain ⟨t, rfl, ht⟩ := hword h
      exact ⟨.boolean false, _, t, hblanks, hc ▸ .falseWord, ht⟩
    split at h
    · rename_i hc
      simp only [bind, Except.bind] at h
      split at h
      · contradiction
      · rename_i t ht
        obtain ⟨body, hbody, rfl⟩ := body_of_skim ht
        exact ⟨.string body, _, t, hblanks, hc ▸ .string hbody, closes_of_leave h hr⟩
    split at h
    · rename_i hc
      obtain ⟨is, t, his, ht⟩ := items_of_enter h hr
      rw [his.eq_map_of_list rfl] at his
      exact ⟨.list (is.map Prod.snd), _, t, hblanks, hc ▸ .list his, ht⟩
    split at h
    · rename_i hc
      obtain ⟨ms, t, hms, ht⟩ := items_of_enter h hr
      exact ⟨.object ms, _, t, hblanks, hc ▸ .object hms, ht⟩
    split at h
    · simp only [bind, Except.bind] at h
      split at h
      · contradiction
      · rename_i p hp
        exact ⟨.number p.1, _, p.2, hblanks, .number (spelled_of_scanLiteral hp),
          closes_of_leave h hr⟩
    · contradiction

theorem value_of_skipTokens {n : Nat} (h : skipTokens n bs s = .ok r) :
    ∃ v a c, Blanks s a ∧ Derives (.value v) a c ∧ Closes bs c r := by
  induction n generalizing bs s with
  | zero => contradiction
  | succ n ih =>
    rw [skipTokens_succ] at h
    cases hstep : skipToken bs s with
    | error f =>
      rw [hstep] at h
      contradiction
    | ok p =>
      obtain ⟨bs', s'⟩ := p
      rw [hstep] at h
      apply value_of_skipToken hstep
      cases bs' with
      | nil =>
        cases h
        exact .done
      | cons b bs' =>
        obtain ⟨v, a, c, blanks, value, rest⟩ := ih h
        exact .value blanks value rest

/-- What is passed over is a value that the grammar derives. -/
theorem value_of_skipValue (h : skipValue s = .ok r) :
    ∃ v a, Blanks s a ∧ Derives (.value v) a r := by
  obtain ⟨v, a, c, blanks, value, rest⟩ := value_of_skipTokens h
  cases rest
  exact ⟨v, a, blanks, value⟩

end RegressionGate.Json
