import RegressionGate.Json.Writer
import RegressionGate.Proofs.Json.Amount
import RegressionGate.Proofs.Json.Skip

/-! What the writer writes: the text of a value, at any level of indentation, is derived by the
grammar as a value with the same content. -/

namespace RegressionGate.Json

open Decimal Utf8

/-! ### Strings -/

theorem toNat_bytes_of_char {c : Char} {b : UInt8} (h : b ∈ String.utf8EncodeChar c) :
    b.toNat = c.toNat ∨ 0x80 ≤ b.toNat := by
  have hbyte {n : Nat} (hn : n < 256) : (UInt8.ofNat n).toNat = n := by
    rw [UInt8.toNat_ofNat', Nat.mod_eq_of_lt hn]
  revert h
  fun_cases String.utf8EncodeChar c with
  | case1 v h =>
    intro hb
    rw [List.mem_singleton.mp hb]
    exact .inl (hbyte (by omega))
  | _ =>
    intro hb
    right
    simp only [List.mem_cons, List.not_mem_nil, or_false] at hb
    rcases hb with rfl | rfl | rfl | rfl
    all_goals
      rw [hbyte (by omega)]
      omega

theorem isPlain_of_char {c : Char} (hcontrol : ¬c < ' ') (hquote : c ≠ '"') (hslash : c ≠ '\\') :
    ∀ b ∈ String.utf8EncodeChar c, IsPlain b := by
  intro b hb
  have hge : 0x20 ≤ c.toNat := Nat.le_of_not_lt hcontrol
  have hquote' : c.toNat ≠ 0x22 := fun h => hquote (Char.toNat_inj.mp h)
  have hslash' : c.toNat ≠ 0x5c := fun h => hslash (Char.toNat_inj.mp h)
  refine ⟨?_, ?_, ?_⟩
  · simp only [UInt8.lt_iff_toNat_lt, UInt8.reduceToNat]
    rcases toNat_bytes_of_char hb with h | h <;> omega
  · rintro rfl
    rcases toNat_bytes_of_char hb with h | h
    · exact hquote' h.symm
    · exact absurd h (by decide)
  · rintro rfl
    rcases toNat_bytes_of_char hb with h | h
    · exact hslash' h.symm
    · exact absurd h (by decide)

theorem Unescaped.append_plain {bs s t : Bytes} (hbs : ∀ b ∈ bs, IsPlain b) (h : Unescaped s t) :
    Unescaped (bs ++ s) (bs ++ t) := by
  induction bs with
  | nil => exact h
  | cons b bs ih =>
    obtain ⟨hb, hbs⟩ := List.forall_mem_cons.mp hbs
    exact .plain hb (ih hbs)

/-- The escape of a control character that has no letter of its own. -/
theorem unescaped_control {n : Nat} (hn : n < 32) {s t : Bytes} (h : Unescaped s t) :
    Unescaped
      (encodeChars ['\\', 'u', '0', '0', Nat.digitChar (n / 16), Nat.digitChar (n % 16)] ++ s)
      (String.utf8EncodeChar (Char.ofNat n) ++ t) := by
  have hbytes : ∀ n < 32,
      encodeChars ['\\', 'u', '0', '0', Nat.digitChar (n / 16), Nat.digitChar (n % 16)] =
        [0x5c, 0x75, 0x30, 0x30, UInt8.ofNat (Nat.digitChar (n / 16)).toNat,
          UInt8.ofNat (Nat.digitChar (n % 16)).toNat] ∧
      hexUnit? 0x30 0x30 (UInt8.ofNat (Nat.digitChar (n / 16)).toNat)
        (UInt8.ofNat (Nat.digitChar (n % 16)).toNat) = some n := by
    decide
  obtain ⟨hbytes, hunit⟩ := hbytes n hn
  rw [hbytes]
  refine .unit hunit ?_ ?_ h
  · simp only [isLeadSurrogate, Bool.and_eq_true, decide_eq_true_eq]
    omega
  · simp only [isTrailSurrogate, Bool.and_eq_true, decide_eq_true_eq]
    omega

theorem unescaped_escapedChar (c : Char) {s t : Bytes} (h : Unescaped s t) :
    Unescaped (encodeChars (escapedChar c) ++ s) (String.utf8EncodeChar c ++ t) := by
  rw [escapedChar]
  split
  · rename_i hc
    rcases hc with rfl | rfl
    · exact .short rfl h
    · exact .short rfl h
  rename_i hquote
  split
  · rename_i hc
    exact hc ▸ .short rfl h
  split
  · rename_i hc
    exact hc ▸ .short rfl h
  split
  · rename_i hc
    exact hc ▸ .short rfl h
  split
  · rename_i hc
    exact hc ▸ .short rfl h
  split
  · rename_i hc
    exact hc ▸ .short rfl h
  split
  · rename_i hcontrol
    have hcontrol' := unescaped_control (n := c.toNat) hcontrol h
    rwa [Char.ofNat_toNat] at hcontrol'
  · rename_i hcontrol
    obtain ⟨hquote, hslash⟩ := not_or.mp hquote
    rw [encodeChars, List.flatMap_singleton]
    exact h.append_plain (isPlain_of_char hcontrol hquote hslash)

/-- The body of a text, with its escapes. -/
def escapedBody (s : String) : Bytes := encodeChars (s.toList.flatMap escapedChar)

theorem spells_escapedBody (s : String) : Spells (escapedBody s) s := by
  rw [Spells, escapedBody, encode]
  induction s.toList with
  | nil => exact .done
  | cons c cs ih =>
    rw [List.flatMap_cons, List.flatMap_cons, encodeChars_append]
    exact unescaped_escapedChar c ih

theorem encode_stringText (s : String) (r : Bytes) :
    encode (stringText s) ++ r = 0x22 :: (escapedBody s ++ 0x22 :: r) := by
  rw [stringText, encode_ofList, List.cons_append, encodeChars_cons, encodeChars_append,
    List.append_assoc, List.append_assoc]
  rfl

/-! ### Values -/

/-- A value and the one that its text is derived as, whatever the level and whatever follows. -/
def Value.Written (v : Value) (raw : Raw) : Prop :=
  ∀ level r, Stops r → Derives (.value raw) (encode (v.text level) ++ r) r

theorem Value.Written.boolean (b : Bool) : (Value.boolean b).Written (.boolean b) := by
  intro level r _
  rw [Value.text]
  cases b with
  | true => exact .trueWord
  | false => exact .falseWord

/-- The literal of a natural number. -/
def natLiteral (n : Nat) : Literal := ⟨false, encodeChars (digitsOf n), [], none⟩

theorem Value.Written.natural (n : Nat) : (Value.natural n).Written (.number (natLiteral n)) := by
  intro level r _
  have htext : encode ((Value.natural n).text level) = encodeChars (digitsOf n) := by
    rw [Value.text, Nat.toString_eq_ofList_toDigits, encode_ofList]
    rfl
  rw [htext]
  refine .number (.parts .absent ?_ .absent .absent)
  by_cases hn : n = 0
  · subst hn
    exact .zero
  · exact whole_encodeChars (allDigits_digitsOf n) (digitsOf_ne_nil n) (head?_digitsOf hn) r

theorem Value.exists_written_amount {x : Binary64} (h : x.IsFinite) :
    ∃ l : Literal, l.nearest = x ∧ (Value.amount x).Written (.number l) := by
  obtain ⟨l, hspelled, hnearest⟩ := exists_literal_amountText h
  exact ⟨l, hnearest, fun level r _ => .number (hspelled r)⟩

theorem Value.Written.string (s : String) : (Value.string s).Written (.string (escapedBody s)) := by
  intro level r _
  rw [Value.text, encode_stringText]
  exact .string (spells_escapedBody s).body

/-! ### Brackets -/

theorem blanks_newLine (level : Nat) (r : Bytes) : Blanks (encode (newLine level) ++ r) r := by
  have hspaces (n : Nat) : Blanks (encodeChars (List.replicate n ' ') ++ r) r := by
    induction n with
    | zero => exact .done
    | succ n ih => exact .blank (by decide) ih
  have hbreak : encode "\n" = [0x0a] := by decide
  rw [newLine, encode_append, hbreak, encode_ofList, List.append_assoc]
  exact .blank (by decide) (hspaces _)

variable {b : Bracket} {level : Nat}

/-- A text that is derived, after blanks, as an item between brackets. -/
def ItemText (b : Bracket) (text : String) (item : Bytes × Raw) : Prop :=
  ∀ s r, Blanks s (encode text ++ r) → Stops r →
    ∃ c d, b.Key item.1 s c ∧ Blanks c d ∧ Derives (.value item.2) d r

/-- Item texts, each on a line of its own, with commas between them. -/
theorem derives_items (level : Nat) {texts : List String} {items : List (Bytes × Raw)}
    (h : List.Forall₂ (ItemText b) texts items) (hne : texts ≠ []) {s r : Bytes}
    (hr : Blanks s (b.closing :: r)) :
    Derives (.items b items)
      (encode (String.intercalate "," (texts.map (newLine level ++ ·))) ++ s) (b.closing :: r) := by
  have hstops : Stops s := hr.stops (stops_cons r (by cases b <;> decide))
  induction h with
  | nil => contradiction
  | @cons text item texts items hitem rest ih =>
    cases rest with
    | nil =>
      rw [List.map_singleton, String.intercalate_singleton, encode_append, List.append_assoc]
      obtain ⟨c, d, hkey, hblanks, hvalue⟩ := hitem _ s (blanks_newLine level _) hstops
      exact .lastItem hkey hblanks hvalue hr
    | @cons text' item' texts items hitem' rest =>
      have hrest := ih (by simp)
      rw [List.map_cons, List.map_cons, String.intercalate_cons_cons, ← List.map_cons,
        encode_append, encode_append, encode_append, List.append_assoc, List.append_assoc,
        List.append_assoc]
      obtain ⟨c, d, hkey, hblanks, hvalue⟩ := hitem _ _ (blanks_newLine level _)
        (stops_cons (b := 0x2c) _ (by decide))
      exact .item hkey hblanks hvalue .done hrest

/-- Texts between brackets: behind the opening bracket stand the items and the closing bracket. -/
theorem derives_bracketed (opening : String) {closing : String}
    (hclosing : encode closing = [b.closing]) {texts : List String} {items : List (Bytes × Raw)}
    (h : List.Forall₂ (ItemText b) texts items) (level : Nat) (r : Bytes) :
    ∃ s, encode (bracketed opening closing level texts) ++ r = encode opening ++ s ∧
      Derives (.items b items) s (b.closing :: r) := by
  rw [bracketed]
  cases h with
  | nil =>
    refine ⟨b.closing :: r, ?_, .noItem .done⟩
    rw [List.isEmpty_nil, if_pos rfl, encode_append, hclosing, List.append_assoc]
    rfl
  | @cons text item texts items hitem rest =>
    have hblanks := blanks_newLine level (b.closing :: r)
    refine ⟨_, ?_, derives_items (level + 1) (.cons hitem rest) (by simp) hblanks⟩
    rw [List.isEmpty_cons, if_neg Bool.false_ne_true, encode_append, encode_append, encode_append,
      hclosing]
    simp only [List.append_assoc, List.singleton_append]

theorem elementTexts_eq (level : Nat) (vs : List Value) :
    elementTexts level vs = vs.map (Value.text level) := by
  induction vs with
  | nil => rw [elementTexts, List.map_nil]
  | cons v vs ih => rw [elementTexts, ih, List.map_cons]

theorem memberTexts_eq (level : Nat) (ms : List (String × Value)) :
    memberTexts level ms = ms.map fun m => stringText m.1 ++ ": " ++ m.2.text level := by
  induction ms with
  | nil => rw [memberTexts, List.map_nil]
  | cons m ms ih =>
    obtain ⟨key, v⟩ := m
    rw [memberTexts, ih, List.map_cons]

theorem Value.Written.itemText {v : Value} {raw : Raw} (h : v.Written raw) :
    ItemText .list (v.text level) ([], raw) :=
  fun s r hblanks hr => ⟨s, _, .element, hblanks, h level r hr⟩

theorem Value.Written.itemText_member {v : Value} {raw : Raw} (h : v.Written raw) (key : String) :
    ItemText .object (stringText key ++ ": " ++ v.text level) (escapedBody key, raw) := by
  intro s r hblanks hr
  have hcolon : encode ": " = [0x3a, 0x20] := by decide
  rw [encode_append, encode_append, List.append_assoc, List.append_assoc, encode_stringText, hcolon]
    at hblanks
  exact ⟨_, _, .member hblanks (spells_escapedBody key).body .done, .blank (by decide) .done,
    h level r hr⟩

theorem Value.Written.list {vs : List Value} {raws : List Raw}
    (h : List.Forall₂ Value.Written vs raws) : (Value.list vs).Written (.list raws) := by
  intro level r _
  have hitems : List.Forall₂ (ItemText .list) (elementTexts (level + 1) vs)
      (raws.map fun raw => ([], raw)) := by
    rw [elementTexts_eq, List.forall₂_map_left_iff, List.forall₂_map_right_iff]
    exact h.imp fun v raw hv => hv.itemText
  have hclosing : encode "]" = [Bracket.closing .list] := by decide
  obtain ⟨s, hs, hderives⟩ := derives_bracketed "[" hclosing hitems level r
  rw [Value.text, hs]
  exact .list hderives

/-- Members and what their texts are derived as. -/
def MemberWritten (m : String × Value) (n : Bytes × Raw) : Prop :=
  n.1 = escapedBody m.1 ∧ m.2.Written n.2

theorem Value.Written.object {ms : List (String × Value)} {ns : List (Bytes × Raw)}
    (h : List.Forall₂ MemberWritten ms ns) : (Value.object ms).Written (.object ns) := by
  intro level r _
  have hitems : List.Forall₂ (ItemText .object) (memberTexts (level + 1) ms) ns := by
    rw [memberTexts_eq, List.forall₂_map_left_iff]
    refine h.imp fun m n hm => ?_
    obtain ⟨body, raw⟩ := n
    obtain ⟨rfl, hv⟩ := hm
    exact hv.itemText_member m.1
  have hclosing : encode "\x7d" = [Bracket.closing .object] := by decide
  obtain ⟨s, hs, hderives⟩ := derives_bracketed "\x7b" hclosing hitems level r
  rw [Value.text, hs]
  exact .object hderives

end RegressionGate.Json
