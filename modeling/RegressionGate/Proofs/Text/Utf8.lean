import Mathlib.Algebra.Ring.Nat
import RegressionGate.Text.Utf8

/-! Reading back what was encoded: the division of an encoded text into characters gives the
characters of the text, so the lenient reading loses nothing of it and encodings of different texts
differ in what they show. The strict reading accepts encodings and nothing else. Of any bytes, the
lenient reading shows no character that they do not spell but the replacement character. -/

namespace RegressionGate.Utf8

theorem not_ascii_of_following {a lo hi : UInt8} {n : Nat} (h : following? a = some (n, lo, hi)) :
    ¬a < 0x80 := by
  intro ha
  have : a < 0xc2 := UInt8.lt_trans ha (by decide)
  simp [following?, this] at h

theorem units_ascii {a : UInt8} (h : a < 0x80) (r : Bytes) :
    units (a :: r) = (some (Char.ofNat a.toNat), 1) :: units r := by
  rw [units.eq_def]
  simp [h]

theorem units_two {a b lo hi : UInt8} (h : following? a = some (1, lo, hi)) (hlo : lo ≤ b)
    (hhi : b ≤ hi) (r : Bytes) :
    units (a :: b :: r) = (some (assemble a 0x1f [b]), 2) :: units r := by
  rw [units.eq_def]
  simp [not_ascii_of_following h, h, hlo, hhi]

theorem units_three {a b c lo hi : UInt8} (h : following? a = some (2, lo, hi)) (hlo : lo ≤ b)
    (hhi : b ≤ hi) (hc : isContinuation c) (r : Bytes) :
    units (a :: b :: c :: r) = (some (assemble a 0x0f [b, c]), 3) :: units r := by
  rw [units.eq_def]
  simp [not_ascii_of_following h, h, hlo, hhi, hc]

theorem units_four {a b c d lo hi : UInt8} (h : following? a = some (3, lo, hi)) (hlo : lo ≤ b)
    (hhi : b ≤ hi) (hc : isContinuation c) (hd : isContinuation d) (r : Bytes) :
    units (a :: b :: c :: d :: r) = (some (assemble a 0x07 [b, c, d]), 4) :: units r := by
  rw [units.eq_def]
  simp [not_ascii_of_following h, h, hlo, hhi, hc, hd]

/-! ### Encodings -/

/-- The bytes of characters one after another. -/
def encodeChars (cs : List Char) : Bytes := cs.flatMap String.utf8EncodeChar

theorem encodeChars_append (cs cs' : List Char) :
    encodeChars (cs ++ cs') = encodeChars cs ++ encodeChars cs' := List.flatMap_append

theorem encodeChars_cons (c : Char) (cs : List Char) :
    encodeChars (c :: cs) = String.utf8EncodeChar c ++ encodeChars cs := List.flatMap_cons

theorem encode_ofList (cs : List Char) : encode (String.ofList cs) = encodeChars cs := by
  rw [encode, String.toList_ofList, encodeChars]

theorem encode_append (s t : String) : encode (s ++ t) = encode s ++ encode t := by
  rw [encode, String.toList_append, List.flatMap_append, ← encode, ← encode]

/-! ### The bytes of one character -/

theorem toNat_and_mask (a : UInt8) {k : Nat} (hk : k ≤ 8) :
    (a &&& UInt8.ofNat (2 ^ k - 1)).toNat = a.toNat % 2 ^ k := by
  have hpow : 2 ^ k ≤ 2 ^ 8 := Nat.pow_le_pow_right (by decide) hk
  rw [UInt8.toNat_and, UInt8.toNat_ofNat', Nat.mod_eq_of_lt (by omega),
    Nat.and_two_pow_sub_one_eq_mod]

theorem isContinuation_iff {b : UInt8} : isContinuation b ↔ 0x80 ≤ b.toNat ∧ b.toNat < 0xc0 := by
  simp only [isContinuation, Bool.and_eq_true, decide_eq_true_eq, UInt8.le_iff_toNat_le,
    UInt8.reduceToNat]
  omega

theorem following_two {a : UInt8} (hlo : 0xc2 ≤ a.toNat) (hhi : a.toNat < 0xe0) :
    following? a = some (1, 0x80, 0xbf) := by
  simp only [following?, UInt8.lt_iff_toNat_lt, UInt8.reduceToNat]
  rw [if_neg (by omega), if_pos hhi]

/-- The second of three bytes lies in the range that the first one allows. -/
theorem following_three {a b : UInt8} (hlo : 0xe0 ≤ a.toNat) (hhi : a.toNat < 0xf0)
    (hb : isContinuation b) (hshort : a.toNat = 0xe0 → 0xa0 ≤ b.toNat)
    (hsurrogate : a.toNat = 0xed → b.toNat < 0xa0) :
    ∃ lo hi, following? a = some (2, lo, hi) ∧ lo ≤ b ∧ b ≤ hi := by
  rw [isContinuation_iff] at hb
  simp only [following?, UInt8.lt_iff_toNat_lt, UInt8.le_iff_toNat_le, ← UInt8.toNat_inj,
    UInt8.reduceToNat]
  rw [if_neg (by omega), if_neg (by omega)]
  split
  · exact ⟨_, _, rfl, by simp; omega, by simp; omega⟩
  · split
    · exact ⟨_, _, rfl, by simp; omega, by simp; omega⟩
    · exact ⟨_, _, rfl, by simp; omega, by simp; omega⟩

theorem following_four {a b : UInt8} (hlo : 0xf0 ≤ a.toNat) (hhi : a.toNat < 0xf5)
    (hb : isContinuation b) (hshort : a.toNat = 0xf0 → 0x90 ≤ b.toNat)
    (hbeyond : a.toNat = 0xf4 → b.toNat < 0x90) :
    ∃ lo hi, following? a = some (3, lo, hi) ∧ lo ≤ b ∧ b ≤ hi := by
  rw [isContinuation_iff] at hb
  simp only [following?, UInt8.lt_iff_toNat_lt, UInt8.le_iff_toNat_le, ← UInt8.toNat_inj,
    UInt8.reduceToNat]
  rw [if_neg (by omega), if_neg (by omega), if_neg (by omega), if_neg (by omega),
    if_neg (by omega)]
  split
  · exact ⟨_, _, rfl, by simp; omega, by simp; omega⟩
  · split
    · exact ⟨_, _, rfl, by simp; omega, by simp; omega⟩
    · rw [if_pos (by omega)]
      exact ⟨_, _, rfl, by simp; omega, by simp; omega⟩

/-- Continuation bytes add six bits each to the bits of a leading byte. -/
theorem assemble_eq {lead bits : UInt8} {rest : Bytes} {c : Char}
    (h : rest.foldl (fun n b => n * 64 + b.toNat % 64) (lead &&& bits).toNat = c.toNat) :
    assemble lead bits rest = c := by
  have hmask (b : UInt8) : (b &&& 0x3f).toNat = b.toNat % 64 :=
    toNat_and_mask b (k := 6) (by decide)
  simp only [assemble, hmask, h, Char.ofNat_toNat]

/-! ### Reading an encoded text -/

theorem units_of_two {c : Char} {a b : UInt8} (hlo : 0x80 ≤ c.toNat) (hhi : c.toNat ≤ 0x7ff)
    (ha : a.toNat = c.toNat / 64 % 32 + 192) (hb : b.toNat = c.toNat % 64 + 128) (rest : Bytes) :
    units (a :: b :: rest) = (some c, 2) :: units rest := by
  have hcont : isContinuation b := isContinuation_iff.mpr (by omega)
  have hbounds := hcont
  simp only [isContinuation, Bool.and_eq_true, decide_eq_true_eq] at hbounds
  have hmask : (a &&& 0x1f).toNat = a.toNat % 32 := toNat_and_mask a (k := 5) (by decide)
  rw [units_two (following_two (by omega) (by omega)) hbounds.1 hbounds.2, assemble_eq (c := c)]
  simp only [List.foldl_cons, List.foldl_nil, hmask, ha, hb]
  omega

theorem units_of_three {c : Char} {a b d : UInt8} (hlo : 0x800 ≤ c.toNat) (hhi : c.toNat ≤ 0xffff)
    (hvalid : c.toNat < 0xd800 ∨ 0xdfff < c.toNat) (ha : a.toNat = c.toNat / 4096 % 16 + 224)
    (hb : b.toNat = c.toNat / 64 % 64 + 128) (hd : d.toNat = c.toNat % 64 + 128) (rest : Bytes) :
    units (a :: b :: d :: rest) = (some c, 3) :: units rest := by
  have hcontb : isContinuation b := isContinuation_iff.mpr (by omega)
  have hcontd : isContinuation d := isContinuation_iff.mpr (by omega)
  have hmask : (a &&& 0x0f).toNat = a.toNat % 16 := toNat_and_mask a (k := 4) (by decide)
  obtain ⟨lo, hi, hfollow, hle, hge⟩ :=
    following_three (a := a) (by omega) (by omega) hcontb (by omega) (by omega)
  rw [units_three hfollow hle hge hcontd, assemble_eq (c := c)]
  simp only [List.foldl_cons, List.foldl_nil, hmask, ha, hb, hd]
  omega

theorem units_of_four {c : Char} {a b d e : UInt8} (hlo : 0x10000 ≤ c.toNat)
    (hhi : c.toNat < 0x110000) (ha : a.toNat = c.toNat / 262144 % 8 + 240)
    (hb : b.toNat = c.toNat / 4096 % 64 + 128) (hd : d.toNat = c.toNat / 64 % 64 + 128)
    (he : e.toNat = c.toNat % 64 + 128) (rest : Bytes) :
    units (a :: b :: d :: e :: rest) = (some c, 4) :: units rest := by
  have hcontb : isContinuation b := isContinuation_iff.mpr (by omega)
  have hcontd : isContinuation d := isContinuation_iff.mpr (by omega)
  have hconte : isContinuation e := isContinuation_iff.mpr (by omega)
  have hmask : (a &&& 0x07).toNat = a.toNat % 8 := toNat_and_mask a (k := 3) (by decide)
  obtain ⟨lo, hi, hfollow, hle, hge⟩ :=
    following_four (a := a) (by omega) (by omega) hcontb (by omega) (by omega)
  rw [units_four hfollow hle hge hcontd hconte, assemble_eq (c := c)]
  simp only [List.foldl_cons, List.foldl_nil, hmask, ha, hb, hd, he]
  omega

theorem units_encodeChar (c : Char) (rest : Bytes) :
    units (String.utf8EncodeChar c ++ rest) =
      (some c, (String.utf8EncodeChar c).length) :: units rest := by
  have hvalid : c.toNat < 0xd800 ∨ 0xdfff < c.toNat ∧ c.toNat < 0x110000 := c.valid
  have hbyte {n : Nat} (hn : n < 256) : (UInt8.ofNat n).toNat = n := by
    rw [UInt8.toNat_ofNat', Nat.mod_eq_of_lt hn]
  fun_cases String.utf8EncodeChar c with
  | case1 v h =>
    have hv : (UInt8.ofNat v).toNat = c.toNat := hbyte (by omega)
    have hlt : UInt8.ofNat v < 0x80 := by
      rw [UInt8.lt_iff_toNat_lt, hv]
      exact Nat.lt_succ_of_le h
    rw [List.cons_append, units_ascii hlt, hv, Char.ofNat_toNat]
    rfl
  | case2 v h0 h =>
    exact units_of_two (Nat.lt_of_not_le h0) h (hbyte (by omega)) (hbyte (by omega)) rest
  | case3 v h0 h1 h =>
    exact units_of_three (Nat.lt_of_not_le h1) h (by omega) (hbyte (by omega)) (hbyte (by omega))
      (hbyte (by omega)) rest
  | case4 v h0 h1 h2 =>
    have hhi : c.toNat < 0x110000 := by omega
    exact units_of_four (Nat.lt_of_not_le h2) hhi (hbyte (by omega)) (hbyte (by omega))
      (hbyte (by omega)) (hbyte (by omega)) rest

theorem units_encode (cs : List Char) (rest : Bytes) :
    units (cs.flatMap String.utf8EncodeChar ++ rest) =
      cs.map (fun c => (some c, (String.utf8EncodeChar c).length)) ++ units rest := by
  induction cs with
  | nil => rfl
  | cons c cs ih => rw [List.flatMap_cons, List.append_assoc, units_encodeChar, ih]; rfl

/-- The lenient reading shows an encoded text as it is. -/
theorem lossy_encode (s : String) : lossy (encode s) = s := by
  have h := units_encode s.toList []
  rw [List.append_nil] at h
  rw [lossy, encode, h]
  simp [units, Function.comp_def]

/-- Whether bytes are the encoding of a text. -/
def WellFormed (bytes : Bytes) : Prop := ∃ s, bytes = encode s

theorem wellFormed_iff {bytes : Bytes} : bytes = encode (lossy bytes) ↔ WellFormed bytes := by
  constructor
  · intro h
    exact ⟨_, h⟩
  · rintro ⟨s, rfl⟩
    rw [lossy_encode]

instance (bytes : Bytes) : Decidable (WellFormed bytes) := decidable_of_iff _ wellFormed_iff

/-- Well-formed bytes are told apart by what they show. -/
theorem WellFormed.eq_of_lossy_eq {a b : Bytes} (ha : WellFormed a) (hb : WellFormed b)
    (h : lossy a = lossy b) : a = b := by
  obtain ⟨s, rfl⟩ := ha
  obtain ⟨t, rfl⟩ := hb
  rw [lossy_encode, lossy_encode] at h
  rw [h]

/-! ### Strict reading -/

/-- What a leading byte says about the bytes of a character, of which `b` is the next. -/
theorem following_bounds {a b lo hi : UInt8} {n : Nat} (h : following? a = some (n, lo, hi))
    (hb : lo ≤ b && b ≤ hi) :
    0x80 ≤ b.toNat ∧ b.toNat < 0xc0 ∧
      (n = 1 ∧ 0xc2 ≤ a.toNat ∧ a.toNat < 0xe0 ∨
        n = 2 ∧ 0xe0 ≤ a.toNat ∧ a.toNat < 0xf0 ∧ (a.toNat = 0xe0 → 0xa0 ≤ b.toNat) ∧
          (a.toNat = 0xed → b.toNat < 0xa0) ∨
        n = 3 ∧ 0xf0 ≤ a.toNat ∧ a.toNat < 0xf5 ∧ (a.toNat = 0xf0 → 0x90 ≤ b.toNat) ∧
          (a.toNat = 0xf4 → b.toNat < 0x90)) := by
  simp only [following?, UInt8.lt_iff_toNat_lt, ← UInt8.toNat_inj, UInt8.reduceToNat] at h
  simp only [Bool.and_eq_true, decide_eq_true_eq, UInt8.le_iff_toNat_le] at hb
  repeat' split at h
  all_goals simp only [reduceCtorEq, Option.some.injEq, Prod.mk.injEq] at h
  all_goals
    obtain ⟨rfl, rfl, rfl⟩ := h
    simp only [UInt8.reduceToNat] at hb
    omega

theorem toNat_assemble {lead bits : UInt8} {rest : Bytes} {n : Nat}
    (h : rest.foldl (fun n b => n * 64 + b.toNat % 64) (lead &&& bits).toNat = n)
    (hn : n.isValidChar) : (assemble lead bits rest).toNat = n := by
  have hmask (b : UInt8) : (b &&& 0x3f).toNat = b.toNat % 64 :=
    toNat_and_mask b (k := 6) (by decide)
  simp only [assemble, hmask, h]
  rw [Char.ofNat, dif_pos hn]
  rfl

theorem encodeChar_ascii {a : UInt8} (h : a < 0x80) :
    String.utf8EncodeChar (Char.ofNat a.toNat) = [a] := by
  have hlt : a.toNat < 0x80 := UInt8.lt_iff_toNat_lt.mp h
  have hvalid : a.toNat.isValidChar := by left; omega
  have hn : (Char.ofNat a.toNat).val.toNat = a.toNat := by rw [Char.ofNat, dif_pos hvalid]; rfl
  simp only [String.utf8EncodeChar, hn]
  rw [if_pos (by omega), UInt8.ofNat_toNat]

theorem encodeChar_two {a b : UInt8} (ha : 0xc2 ≤ a.toNat) (ha' : a.toNat < 0xe0)
    (hb : 0x80 ≤ b.toNat) (hb' : b.toNat < 0xc0) :
    String.utf8EncodeChar (assemble a 0x1f [b]) = [a, b] := by
  have hmask : (a &&& 0x1f).toNat = a.toNat % 32 := toNat_and_mask a (k := 5) (by decide)
  have hn : (assemble a 0x1f [b]).val.toNat = a.toNat % 32 * 64 + b.toNat % 64 :=
    toNat_assemble (by simp only [List.foldl_cons, List.foldl_nil, hmask]) (by left; omega)
  simp only [String.utf8EncodeChar, hn]
  rw [if_neg (by omega), if_pos (by omega)]
  congr 1
  · rw [← UInt8.toNat_inj, UInt8.toNat_ofNat']
    omega
  · congr 1
    rw [← UInt8.toNat_inj, UInt8.toNat_ofNat']
    omega

theorem encodeChar_three {a b c : UInt8} (ha : 0xe0 ≤ a.toNat) (ha' : a.toNat < 0xf0)
    (hb : 0x80 ≤ b.toNat) (hb' : b.toNat < 0xc0) (hc : isContinuation c)
    (hshort : a.toNat = 0xe0 → 0xa0 ≤ b.toNat) (hsurrogate : a.toNat = 0xed → b.toNat < 0xa0) :
    String.utf8EncodeChar (assemble a 0x0f [b, c]) = [a, b, c] := by
  rw [isContinuation_iff] at hc
  have hmask : (a &&& 0x0f).toNat = a.toNat % 16 := toNat_and_mask a (k := 4) (by decide)
  have hn : (assemble a 0x0f [b, c]).val.toNat =
      (a.toNat % 16 * 64 + b.toNat % 64) * 64 + c.toNat % 64 :=
    toNat_assemble (by simp only [List.foldl_cons, List.foldl_nil, hmask])
      (by rw [Nat.isValidChar]; omega)
  simp only [String.utf8EncodeChar, hn]
  rw [if_neg (by omega), if_neg (by omega), if_pos (by omega)]
  simp only [List.cons.injEq, ← UInt8.toNat_inj, UInt8.toNat_ofNat', and_true]
  omega

theorem encodeChar_four {a b c d : UInt8} (ha : 0xf0 ≤ a.toNat) (ha' : a.toNat < 0xf5)
    (hb : 0x80 ≤ b.toNat) (hb' : b.toNat < 0xc0) (hc : isContinuation c) (hd : isContinuation d)
    (hshort : a.toNat = 0xf0 → 0x90 ≤ b.toNat) (hbeyond : a.toNat = 0xf4 → b.toNat < 0x90) :
    String.utf8EncodeChar (assemble a 0x07 [b, c, d]) = [a, b, c, d] := by
  rw [isContinuation_iff] at hc hd
  have hmask : (a &&& 0x07).toNat = a.toNat % 8 := toNat_and_mask a (k := 3) (by decide)
  have hn : (assemble a 0x07 [b, c, d]).val.toNat =
      ((a.toNat % 8 * 64 + b.toNat % 64) * 64 + c.toNat % 64) * 64 + d.toNat % 64 :=
    toNat_assemble (by simp only [List.foldl_cons, List.foldl_nil, hmask])
      (by rw [Nat.isValidChar]; omega)
  simp only [String.utf8EncodeChar, hn]
  rw [if_neg (by omega), if_neg (by omega), if_neg (by omega)]
  simp only [List.cons.injEq, ← UInt8.toNat_inj, UInt8.toNat_ofNat', and_true]
  omega

/-- The division of bytes into malformed stretches and the encodings of characters. -/
inductive Division : List (Option Char × Nat) → Bytes → Prop
  | nil : Division [] []
  | malformed {us : List (Option Char × Nat)} {n : Nat} {bytes : Bytes} (stretch : Bytes)
      (h : Division us bytes) : Division ((none, n) :: us) (stretch ++ bytes)
  | character {us : List (Option Char × Nat)} {n : Nat} {c : Char} {stretch bytes : Bytes}
      (hc : String.utf8EncodeChar c = stretch) (h : Division us bytes) :
      Division ((some c, n) :: us) (stretch ++ bytes)

theorem division_units (bytes : Bytes) : Division (units bytes) bytes := by
  fun_induction units bytes with
  | case1 => exact .nil
  | case2 a r ha ih => exact .character (encodeChar_ascii ha) ih
  | case3 a _ lo hi b r hb hfollow ih =>
    obtain ⟨hlo, hhi, hcases⟩ := following_bounds hfollow hb
    exact .character (encodeChar_two (by omega) (by omega) (by omega) (by omega)) ih
  | case4 a _ n lo hi b => exact .malformed [a, b] .nil
  | case5 a _ lo hi b hb d r hd hfollow _ ih =>
    obtain ⟨hlo, hhi, hcases⟩ := following_bounds hfollow hb
    exact .character (encodeChar_three (by omega) (by omega) (by omega) (by omega) hd (by omega)
      (by omega)) ih
  | case6 a _ n lo hi b _ _ _ d => exact .malformed [a, b, d] .nil
  | case7 a _ n lo hi b hfollow hb hn d hd hn' e r he ih =>
    obtain ⟨hlo, hhi, hcases⟩ := following_bounds hfollow hb
    exact .character (encodeChar_four (by omega) (by omega) (by omega) (by omega) hd he (by omega)
      (by omega)) ih
  | case8 a _ n lo hi b _ _ _ d _ _ e r _ ih => exact .malformed [a, b, d] ih
  | case9 a _ n lo hi b _ _ _ d r _ ih => exact .malformed [a, b] ih
  | case10 a _ n lo hi b r _ _ ih => exact .malformed [a] ih
  | case11 a _ r _ ih => exact .malformed [a] ih

namespace Division

variable {us : List (Option Char × Nat)} {bytes : Bytes}

/-- Bytes that divide into characters alone are the encoding of these. -/
theorem eq_encodeChars (h : Division us bytes) {cs : List Char}
    (hcs : us.map Prod.fst = cs.map some) : bytes = encodeChars cs := by
  induction h generalizing cs with
  | nil =>
    rw [List.map_nil, eq_comm, List.map_eq_nil_iff] at hcs
    rw [hcs]
    rfl
  | malformed =>
    obtain ⟨c, cs, -, hc, -⟩ := List.map_eq_cons_iff.mp hcs.symm
    contradiction
  | character hd _ ih =>
    obtain ⟨c, cs, rfl, hc, hrest⟩ := List.map_eq_cons_iff.mp hcs.symm
    obtain rfl := Option.some.inj hc
    rw [encodeChars_cons, hd, ← ih hrest.symm]

/-- A character takes no bytes but those that are there. -/
theorem subset (h : Division us bytes) {c : Char} (hc : some c ∈ us.map Prod.fst) :
    String.utf8EncodeChar c ⊆ bytes := by
  induction h with
  | nil => contradiction
  | malformed stretch _ ih =>
    rw [List.map_cons] at hc
    have hmem := List.mem_of_ne_of_mem (Option.some_ne_none c) hc
    exact List.subset_append_of_subset_right _ (ih hmem)
  | character hd _ ih =>
    rcases List.mem_cons.mp hc with heq | hmem
    · obtain rfl := Option.some.inj heq
      exact hd ▸ List.subset_append_left _ _
    · exact List.subset_append_of_subset_right _ (ih hmem)

end Division

/-- The lenient reading shows replacement characters and characters that the bytes spell. -/
theorem eq_or_subset_of_mem_lossy {bytes : Bytes} {c : Char} (h : c ∈ (lossy bytes).toList) :
    c = '\ufffd' ∨ String.utf8EncodeChar c ⊆ bytes := by
  rw [lossy, String.toList_ofList] at h
  obtain ⟨⟨_ | d, n⟩, hunit, rfl⟩ := List.mem_map.mp h
  · exact .inl rfl
  · exact .inr ((division_units bytes).subset (List.mem_map_of_mem hunit))

theorem mapM_id_eq_some {α : Type} {xs : List (Option α)} {ys : List α} :
    xs.mapM id = some ys ↔ xs = ys.map some := by
  induction xs generalizing ys with
  | nil => cases ys <;> simp
  | cons x xs ih =>
    cases x with
    | none => cases ys <;> simp
    | some a =>
      cases ys with
      | nil => simp [Option.bind_eq_some_iff]
      | cons b ys =>
        simp only [List.mapM_cons, id, Option.bind_eq_bind, Option.bind_some,
          Option.bind_eq_some_iff, ih]
        grind

/-- The strict reading accepts the encodings of texts, and gives the text. -/
theorem decode?_eq_some_iff {bytes : Bytes} {s : String} :
    decode? bytes = some s ↔ bytes = encode s := by
  rw [decode?, Option.map_eq_some_iff]
  constructor
  · rintro ⟨cs, hcs, rfl⟩
    rw [mapM_id_eq_some] at hcs
    rw [encode_ofList]
    exact (division_units bytes).eq_encodeChars hcs
  · rintro rfl
    refine ⟨s.toList, ?_, String.ofList_toList⟩
    have h := units_encode s.toList []
    rw [List.append_nil] at h
    rw [mapM_id_eq_some, encode, h]
    simp [units, Function.comp_def]

end RegressionGate.Utf8
