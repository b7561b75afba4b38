import RegressionGate.Proofs.Json.Grammar
import RegressionGate.Proofs.Text.Utf8

/-! Strings: skimming accepts the bodies of strings, and reading accepts those that stand for a
text and gives the text. -/

namespace RegressionGate.Json

theorem ne_of_shortEscape {e : UInt8} (h : (shortEscape? e).isSome) : e ≠ 0x75 := by
  rintro rfl
  contradiction

theorem Body.skim {body : Bytes} (h : Body body) (r : Bytes) :
    skim (body ++ 0x22 :: r) = .ok r := by
  induction h with
  | done => rfl
  | @plain b s h rest ih =>
    obtain ⟨hcontrol, hquote, hslash⟩ := h
    simp [Json.skim, hcontrol, hslash, ih]
  | @short e s h rest ih => simp [Json.skim, h, ne_of_shortEscape h, ih]
  | unit h rest ih => simp [Json.skim, h, ih]

theorem body_of_skim {s r : Bytes} (h : skim s = .ok r) :
    ∃ body, Body body ∧ s = body ++ 0x22 :: r := by
  fun_induction skim s with
  | case2 r' =>
    cases h
    exact ⟨[], .done, rfl⟩
  | case3 a b c d r' hunit ih =>
    obtain ⟨body, hbody, rfl⟩ := ih h
    exact ⟨_, .unit hunit hbody, rfl⟩
  | case6 e r' _ _ hescape ih =>
    obtain ⟨body, hbody, rfl⟩ := ih h
    exact ⟨_, .short hescape hbody, rfl⟩
  | case10 b r' hquote _ _ hslash hlast hcontrol ih =>
    obtain ⟨body, hbody, rfl⟩ := ih h
    refine ⟨_, .plain ⟨hcontrol, hquote, fun hb => ?_⟩ hbody, rfl⟩
    cases body with
    | nil => exact hslash _ _ hb rfl
    | cons e s => exact hslash _ _ hb rfl
  | _ => contradiction

/-! ### Escapes -/

theorem not_isTrailSurrogate {n : Nat} (h : isLeadSurrogate n) : ¬isTrailSurrogate n := by
  simp only [isLeadSurrogate, isTrailSurrogate, Bool.and_eq_true, decide_eq_true_eq] at *
  omega

theorem Unescaped.body {body bytes : Bytes} (h : Unescaped body bytes) : Body body := by
  induction h with
  | done => exact .done
  | plain h rest ih => exact .plain h ih
  | short h rest ih => exact .short (by rw [h]; rfl) ih
  | unit h lead trail rest ih => exact .unit (by rw [h]; rfl) ih
  | pair h h' lead trail rest ih => exact .unit (by rw [h]; rfl) (.unit (by rw [h']; rfl) ih)

theorem Unescaped.unescape {body bytes : Bytes} (h : Unescaped body bytes) (done r : Bytes) :
    unescape done (body ++ 0x22 :: r) = .ok (done.reverse ++ bytes, r) := by
  induction h generalizing done with
  | done => simp [Json.unescape]
  | plain h rest ih =>
    obtain ⟨hcontrol, hquote, hslash⟩ := h
    simp [Json.unescape, hcontrol, hslash, ih]
  | short h rest ih =>
    have hne := ne_of_shortEscape (Option.isSome_of_eq_some h)
    simp [Json.unescape, h, hne, ih]
  | unit h lead trail rest ih => simp [Json.unescape, h, lead, trail, ih]
  | pair h h' lead trail rest ih =>
    simp [Json.unescape, h, h', lead, not_isTrailSurrogate lead, trail, ih]

theorem unescaped_of_unescape {done s bytes r : Bytes} (h : unescape done s = .ok (bytes, r)) :
    ∃ body t, Unescaped body t ∧ s = body ++ 0x22 :: r ∧ bytes = done.reverse ++ t := by
  fun_induction unescape done s with
  | case2 done r' =>
    cases h
    exact ⟨[], [], .done, rfl, (List.append_nil _).symm⟩
  | case5 done a b c d r' n hunit htrail hlead ih =>
    obtain ⟨body, t, hbody, rfl, rfl⟩ := ih h
    exact ⟨_, _, .unit hunit (by simpa using hlead) htrail hbody, rfl, by simp⟩
  | case7 done a b c d n hunit htrail hlead a' b' c' d' r' m hunit' htrail' ih =>
    obtain ⟨body, t, hbody, hr, ht⟩ := ih h
    rw [hr, ht]
    exact ⟨_, _, .pair hunit hunit' (by simpa using hlead) htrail' hbody, rfl, by simp⟩
  | case13 done e r' _ _ b hescape ih =>
    obtain ⟨body, t, hbody, rfl, rfl⟩ := ih h
    exact ⟨_, _, .short hescape hbody, rfl, by simp⟩
  | case17 done b r' hquote _ _ hslash hlast hcontrol ih =>
    obtain ⟨body, t, hbody, rfl, rfl⟩ := ih h
    refine ⟨_, _, .plain ⟨hcontrol, hquote, fun hb => ?_⟩ hbody, rfl, by simp⟩
    cases body with
    | nil => exact hslash _ _ hb rfl
    | cons e s => exact hslash _ _ hb rfl
  | _ => contradiction

/-! ### Texts -/

theorem Spells.body {body : Bytes} {text : String} (h : Spells body text) : Body body :=
  Unescaped.body h

theorem Spells.readText {body : Bytes} {text : String} (h : Spells body text) (r : Bytes) :
    readText (body ++ 0x22 :: r) = .ok (text, r) := by
  have hdecode : Utf8.decode? (Utf8.encode text) = some text := Utf8.decode?_eq_some_iff.mpr rfl
  rw [Json.readText, Unescaped.unescape h]
  simp [bind, Except.bind, hdecode]

theorem spells_of_readText {s r : Bytes} {text : String} (h : readText s = .ok (text, r)) :
    ∃ body, Spells body text ∧ s = body ++ 0x22 :: r := by
  rw [readText.eq_def] at h
  simp only [bind, Except.bind] at h
  split at h
  · contradiction
  · rename_i p hunescape
    split at h
    · rename_i t hdecode
      cases h
      obtain ⟨body, bytes, hbody, rfl, heq⟩ := unescaped_of_unescape hunescape
      refine ⟨body, ?_, rfl⟩
      rw [Utf8.decode?_eq_some_iff.mp hdecode] at heq
      rw [Spells, heq]
      exact hbody
    · contradiction

end RegressionGate.Json
