import RegressionGate.Proofs.Json.Skip

/-! The grammar is unambiguous: bytes are derived as one value at most, with one rest. -/

namespace RegressionGate.Json

variable {s r r' : Bytes} {b : Bracket}

theorem Blanks.eq_of_cons {c c' : UInt8} (h : Blanks s (c :: r)) (h' : Blanks s (c' :: r'))
    (hc : isBlank c = false) (hc' : isBlank c' = false) : c = c' ∧ r = r' :=
  List.cons.inj ((h.skipBlanks_cons hc).symm.trans (h'.skipBlanks_cons hc'))

theorem Body.unique {body body' : Bytes} (h : Body body) (h' : Body body')
    (heq : body ++ 0x22 :: r = body' ++ 0x22 :: r') : body = body' ∧ r = r' := by
  have hskim := h.skim r
  rw [heq, h'.skim r'] at hskim
  obtain rfl := Except.ok.inj hskim
  exact ⟨List.append_cancel_right heq, rfl⟩

theorem Bracket.Key.unique {key key' c c' : Bytes} (h : b.Key key s c) (h' : b.Key key' s c') :
    key = key' ∧ c = c' := by
  cases h with
  | element =>
    cases h'
    exact ⟨rfl, rfl⟩
  | member before body colon =>
    cases h' with
    | member before' body' colon' =>
      obtain ⟨-, hrest⟩ := before.eq_of_cons before' (by decide) (by decide)
      obtain ⟨rfl, rfl⟩ := body.unique body' hrest
      exact ⟨rfl, (colon.eq_of_cons colon' (by decide) (by decide)).2⟩

theorem Blanks.eq_of_value {d d' e e' : Bytes} {v v' : Raw} (h : Blanks s d) (h' : Blanks s d')
    (hv : Derives (.value v) d e) (hv' : Derives (.value v') d' e') : d = d' := by
  obtain ⟨x, u, rfl, hx, -⟩ := hv.exists_cons
  obtain ⟨x', u', rfl, hx', -⟩ := hv'.exists_cons
  obtain ⟨rfl, rfl⟩ := h.eq_of_cons h' hx hx'
  rfl

theorem isBlank_closing (b : Bracket) : isBlank b.closing = false := by cases b <;> decide

/-- No item begins where the closing bracket stands. -/
theorem not_item_of_closing {key c d e : Bytes} {v : Raw} (h : Blanks s (b.closing :: r))
    (hkey : b.Key key s c) (hblanks : Blanks c d) (hv : Derives (.value v) d e) : False := by
  cases hkey with
  | element =>
    obtain ⟨x, u, rfl, hx, hclosing⟩ := hv.exists_cons
    exact hclosing (hblanks.eq_of_cons h hx (by decide)).1
  | member before => exact absurd (before.eq_of_cons h (by decide) (by decide)).1 (by decide)

theorem not_comma_of_closing (h : Blanks s (b.closing :: r)) (h' : Blanks s (0x2c :: r')) :
    False := by
  cases b with
  | list => exact absurd (h.eq_of_cons h' (by decide) (by decide)).1 (by decide)
  | object => exact absurd (h.eq_of_cons h' (by decide) (by decide)).1 (by decide)

theorem Literal.Spelled.not_cons {l : Literal} {c : UInt8} (h : l.Spelled (c :: s) r)
    (hminus : c ≠ 0x2d) (hdigit : isDigit c = false) : False := by
  obtain ⟨c', s', heq, hc⟩ := h.exists_cons
  cases heq
  rcases hc with hc | hc
  · exact hminus hc
  · rw [hdigit] at hc
    contradiction

/-- What two derivations of the same bytes have in common: a value and its rest, or all that stands
between brackets. -/
def Phrase.Unique : Phrase → (bytes rest : Bytes) → Prop
  | value v, s, r => Stops r → ∀ v' r', Derives (.value v') s r' → Stops r' → v' = v ∧ r' = r
  | items b is, s, r => ∀ u, r = b.closing :: u → ∀ is' u',
      Derives (.items b is') s (b.closing :: u') → is' = is ∧ u' = u

theorem Derives.unique_phrase {p : Phrase} (h : Derives p s r) : p.Unique s r := by
  induction h with
  | @nullWord r =>
    intro hr v' r' h' hr'
    generalize hs : 0x6e :: 0x75 :: 0x6c :: 0x6c :: r = t at h'
    cases h' with
    | nullWord =>
      simp at hs
      exact ⟨rfl, hs.symm⟩
    | number h' => exact ((hs ▸ h').not_cons (by decide) (by decide)).elim
    | _ => simp at hs
  | @trueWord r =>
    intro hr v' r' h' hr'
    generalize hs : 0x74 :: 0x72 :: 0x75 :: 0x65 :: r = t at h'
    cases h' with
    | trueWord =>
      simp at hs
      exact ⟨rfl, hs.symm⟩
    | number h' => exact ((hs ▸ h').not_cons (by decide) (by decide)).elim
    | _ => simp at hs
  | @falseWord r =>
    intro hr v' r' h' hr'
    generalize hs : 0x66 :: 0x61 :: 0x6c :: 0x73 :: 0x65 :: r = t at h'
    cases h' with
    | falseWord =>
      simp at hs
      exact ⟨rfl, hs.symm⟩
    | number h' => exact ((hs ▸ h').not_cons (by decide) (by decide)).elim
    | _ => simp at hs
  | @number l s r h =>
    intro hr v' r' h' hr'
    cases h' with
    | number h' =>
      obtain ⟨rfl, rfl⟩ := h.unique h' hr hr'
      exact ⟨rfl, rfl⟩
    | _ => exact (h.not_cons (by decide) (by decide)).elim
  | @string body r h =>
    intro hr v' r' h' hr'
    generalize hs : 0x22 :: (body ++ 0x22 :: r) = t at h'
    cases h' with
    | string h' =>
      obtain ⟨rfl, rfl⟩ := h.unique h' (List.cons.inj hs).2
      exact ⟨rfl, rfl⟩
    | number h' => exact ((hs ▸ h').not_cons (by decide) (by decide)).elim
    | _ => simp at hs
  | @list vs s r h ih =>
    intro hr v' r' h' hr'
    generalize hs : 0x5b :: s = t at h'
    cases h' with
    | list h' =>
      obtain ⟨-, rfl⟩ := List.cons.inj hs
      obtain ⟨heq, rfl⟩ := ih r rfl _ _ h'
      rw [(List.map_inj_right fun _ _ h => (Prod.mk.inj h).2).mp heq]
      exact ⟨rfl, rfl⟩
    | number h' => exact ((hs ▸ h').not_cons (by decide) (by decide)).elim
    | _ => simp at hs
  | @object ms s r h ih =>
    intro hr v' r' h' hr'
    generalize hs : 0x7b :: s = t at h'
    cases h' with
    | object h' =>
      obtain ⟨-, rfl⟩ := List.cons.inj hs
      obtain ⟨rfl, rfl⟩ := ih r rfl _ _ h'
      exact ⟨rfl, rfl⟩
    | number h' => exact ((hs ▸ h').not_cons (by decide) (by decide)).elim
    | _ => simp at hs
  | noItem h =>
    rintro u rfl is' u' h'
    cases h' with
    | noItem h' => exact ⟨rfl, (h.eq_of_cons h' (isBlank_closing _) (isBlank_closing _)).2.symm⟩
    | lastItem hkey blanks value => exact (not_item_of_closing h hkey blanks value).elim
    | item hkey blanks value => exact (not_item_of_closing h hkey blanks value).elim
  | lastItem hkey blanks value after ih =>
    rintro u rfl is' u' h'
    have hstops := after.stops (stops_closing _ u)
    cases h' with
    | noItem h' => exact (not_item_of_closing h' hkey blanks value).elim
    | lastItem hkey' blanks' value' after' =>
      obtain ⟨rfl, rfl⟩ := hkey.unique hkey'
      obtain rfl := blanks.eq_of_value blanks' value value'
      obtain ⟨rfl, rfl⟩ := ih hstops _ _ value' (after'.stops (stops_closing _ u'))
      exact ⟨rfl, (after.eq_of_cons after' (isBlank_closing _) (isBlank_closing _)).2.symm⟩
    | item hkey' blanks' value' after' =>
      obtain ⟨rfl, rfl⟩ := hkey.unique hkey'
      obtain rfl := blanks.eq_of_value blanks' value value'
      obtain ⟨rfl, rfl⟩ := ih hstops _ _ value' (after'.stops (stops_cons _ (by decide)))
      exact (not_comma_of_closing after after').elim
  | item hkey blanks value after rest ih ihrest =>
    rintro u rfl is' u' h'
    have hstops := after.stops (stops_cons _ (by decide))
    cases h' with
    | noItem h' => exact (not_item_of_closing h' hkey blanks value).elim
    | lastItem hkey' blanks' value' after' =>
      obtain ⟨rfl, rfl⟩ := hkey.unique hkey'
      obtain rfl := blanks.eq_of_value blanks' value value'
      obtain ⟨rfl, rfl⟩ := ih hstops _ _ value' (after'.stops (stops_closing _ u'))
      exact (not_comma_of_closing after' after).elim
    | item hkey' blanks' value' after' rest' =>
      obtain ⟨rfl, rfl⟩ := hkey.unique hkey'
      obtain rfl := blanks.eq_of_value blanks' value value'
      obtain ⟨rfl, rfl⟩ := ih hstops _ _ value' (after'.stops (stops_cons _ (by decide)))
      obtain ⟨-, rfl⟩ := after.eq_of_cons after' (by decide) (by decide)
      obtain ⟨heq, rfl⟩ := ihrest u rfl _ _ rest'
      exact ⟨by rw [heq], rfl⟩

theorem Derives.unique {v v' : Raw} (h : Derives (.value v) s r) (h' : Derives (.value v') s r')
    (hr : Stops r) (hr' : Stops r') : v' = v ∧ r' = r :=
  h.unique_phrase hr v' r' h' hr'

/-- A document has one value. -/
theorem Document.unique {v v' : Raw} (h : Document v s) (h' : Document v' s) : v' = v := by
  obtain ⟨a, r, blanks, hv, hend⟩ := h
  obtain ⟨a', r', blanks', hv', hend'⟩ := h'
  obtain rfl := blanks.eq_of_value blanks' hv hv'
  exact (hv.unique hv' (hend.stops stops_nil) (hend'.stops stops_nil)).1

end RegressionGate.Json
