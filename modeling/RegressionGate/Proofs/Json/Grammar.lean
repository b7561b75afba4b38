import RegressionGate.Json.Skip

/-! The grammar of JSON, apart from any reader. Each relation holds of bytes that begin with a
phrase and the bytes that follow it. A value is kept as it is written: a number by the parts of its
literal, a string by what stands between its quotes. -/

namespace RegressionGate.Json

/-- Blanks, any number of them, and then `rest`. -/
inductive Blanks : (bytes rest : Bytes) → Prop
  | done {r : Bytes} : Blanks r r
  | blank {b : UInt8} {s r : Bytes} (h : isBlank b) (rest : Blanks s r) : Blanks (b :: s) r

/-! ### Numbers -/

/-- A run of digits, at least one, and then `rest`. -/
structure Digits (digits bytes rest : Bytes) : Prop where
  split : bytes = digits ++ rest
  some : digits ≠ []
  digit : ∀ d ∈ digits, isDigit d

inductive Minus : Bool → (bytes rest : Bytes) → Prop
  | present {r : Bytes} : Minus true (0x2d :: r) r
  | absent {r : Bytes} : Minus false r r

/-- The digits before the point, without a leading zero unless it is the only digit. -/
inductive Whole : (digits bytes rest : Bytes) → Prop
  | zero {r : Bytes} : Whole [0x30] (0x30 :: r) r
  | positive {ds s r : Bytes} (h : Digits ds s r) (first : ds.head? ≠ some 0x30) : Whole ds s r

inductive Fraction : (digits bytes rest : Bytes) → Prop
  | present {ds s r : Bytes} (h : Digits ds s r) : Fraction ds (0x2e :: s) r
  | absent {r : Bytes} : Fraction [] r r

/-- The sign of an exponent, which may be a plus. -/
inductive Sign : Bool → (bytes rest : Bytes) → Prop
  | plus {r : Bytes} : Sign false (0x2b :: r) r
  | minus {negative : Bool} {s r : Bytes} (h : Minus negative s r) : Sign negative s r

inductive Exponent : Option (Bool × Bytes) → (bytes rest : Bytes) → Prop
  | present {e : UInt8} {negative : Bool} {ds s a r : Bytes} (letter : e = 0x65 ∨ e = 0x45)
      (sign : Sign negative s a) (h : Digits ds a r) : Exponent (some (negative, ds)) (e :: s) r
  | absent {r : Bytes} : Exponent none r r

/-- A number literal and then `rest`. -/
inductive Literal.Spelled : Literal → (bytes rest : Bytes) → Prop
  | parts {l : Literal} {s a b c r : Bytes} (sign : Minus l.negative s a)
      (whole : Whole l.whole a b) (fraction : Fraction l.fraction b c)
      (exponent : Exponent l.exponent c r) : Spelled l s r

/-! ### Strings -/

/-- Whether a byte stands for itself in a string: neither a control character nor a quote nor a
backslash. -/
def IsPlain (b : UInt8) : Prop := ¬b < 0x20 ∧ b ≠ 0x22 ∧ b ≠ 0x5c

/-- What may stand between the quotes of a string. -/
inductive Body : Bytes → Prop
  | done : Body []
  | plain {b : UInt8} {s : Bytes} (h : IsPlain b) (rest : Body s) : Body (b :: s)
  | short {e : UInt8} {s : Bytes} (h : (shortEscape? e).isSome) (rest : Body s) :
      Body (0x5c :: e :: s)
  | unit {a b c d : UInt8} {s : Bytes} (h : (hexUnit? a b c d).isSome) (rest : Body s) :
      Body (0x5c :: 0x75 :: a :: b :: c :: d :: s)

/-- The bytes that the body of a string stands for. A surrogate is an escape of its own, and only a
pair of them stands for a character. -/
inductive Unescaped : (body bytes : Bytes) → Prop
  | done : Unescaped [] []
  | plain {b : UInt8} {s t : Bytes} (h : IsPlain b) (rest : Unescaped s t) :
      Unescaped (b :: s) (b :: t)
  | short {e b : UInt8} {s t : Bytes} (h : shortEscape? e = some b) (rest : Unescaped s t) :
      Unescaped (0x5c :: e :: s) (b :: t)
  | unit {a b c d : UInt8} {n : Nat} {s t : Bytes} (h : hexUnit? a b c d = some n)
      (lead : ¬isLeadSurrogate n) (trail : ¬isTrailSurrogate n) (rest : Unescaped s t) :
      Unescaped (0x5c :: 0x75 :: a :: b :: c :: d :: s)
        (String.utf8EncodeChar (Char.ofNat n) ++ t)
  | pair {a b c d a' b' c' d' : UInt8} {n m : Nat} {s t : Bytes} (h : hexUnit? a b c d = some n)
      (h' : hexUnit? a' b' c' d' = some m) (lead : isLeadSurrogate n) (trail : isTrailSurrogate m)
      (rest : Unescaped s t) :
      Unescaped
        (0x5c :: 0x75 :: a :: b :: c :: d :: 0x5c :: 0x75 :: a' :: b' :: c' :: d' :: s)
        (String.utf8EncodeChar (pairChar n m) ++ t)

/-- Whether the body of a string stands for a text. -/
def Spells (body : Bytes) (text : String) : Prop := Unescaped body (Utf8.encode text)

/-! ### Values -/

/-- A JSON value as it is written. -/
inductive Raw
  | null
  | boolean (b : Bool)
  | number (l : Literal)
  | string (body : Bytes)
  | list (elements : List Raw)
  | object (members : List (Bytes × Raw))

/-- What stands before a value between brackets: nothing in a list, a key and a colon in an
object. -/
inductive Bracket.Key : Bracket → (body bytes rest : Bytes) → Prop
  | element {r : Bytes} : Key .list [] r r
  | member {body s c r : Bytes} (before : Blanks s (0x22 :: (body ++ 0x22 :: c))) (h : Body body)
      (colon : Blanks c (0x3a :: r)) : Key .object body s r

/-- A value, or what stands between brackets. The elements of a list have empty keys. -/
inductive Phrase
  | value (v : Raw)
  | items (b : Bracket) (items : List (Bytes × Raw))

/-- A phrase and then `rest`. -/
inductive Derives : Phrase → (bytes rest : Bytes) → Prop
  | nullWord {r : Bytes} : Derives (.value .null) (0x6e :: 0x75 :: 0x6c :: 0x6c :: r) r
  | trueWord {r : Bytes} : Derives (.value (.boolean true)) (0x74 :: 0x72 :: 0x75 :: 0x65 :: r) r
  | falseWord {r : Bytes} :
      Derives (.value (.boolean false)) (0x66 :: 0x61 :: 0x6c :: 0x73 :: 0x65 :: r) r
  | number {l : Literal} {s r : Bytes} (h : l.Spelled s r) : Derives (.value (.number l)) s r
  | string {body r : Bytes} (h : Body body) :
      Derives (.value (.string body)) (0x22 :: (body ++ 0x22 :: r)) r
  | list {vs : List Raw} {s r : Bytes}
      (h : Derives (.items .list (vs.map fun v => ([], v))) s (0x5d :: r)) :
      Derives (.value (.list vs)) (0x5b :: s) r
  | object {ms : List (Bytes × Raw)} {s r : Bytes} (h : Derives (.items .object ms) s (0x7d :: r)) :
      Derives (.value (.object ms)) (0x7b :: s) r
  | noItem {b : Bracket} {s r : Bytes} (h : Blanks s r) : Derives (.items b []) s r
  | lastItem {b : Bracket} {key : Bytes} {v : Raw} {s c d e r : Bytes} (before : b.Key key s c)
      (blanks : Blanks c d) (value : Derives (.value v) d e) (after : Blanks e r) :
      Derives (.items b [(key, v)]) s r
  | item {b : Bracket} {key : Bytes} {v : Raw} {i : Bytes × Raw} {is : List (Bytes × Raw)}
      {s c d e f r : Bytes} (before : b.Key key s c) (blanks : Blanks c d)
      (value : Derives (.value v) d e) (after : Blanks e (0x2c :: f))
      (rest : Derives (.items b (i :: is)) f r) : Derives (.items b ((key, v) :: i :: is)) s r

/-- A document: one value with nothing but blanks around it. -/
def Document (v : Raw) (bytes : Bytes) : Prop :=
  ∃ s r, Blanks bytes s ∧ Derives (.value v) s r ∧ Blanks r []

end RegressionGate.Json
