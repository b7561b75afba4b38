/-! UTF-8: the division of any byte string into characters and malformed stretches, and from it a
strict reading, which refuses malformed bytes, and a lenient one, which shows a replacement
character for each malformed stretch. -/

namespace RegressionGate

abbrev Bytes := List UInt8

namespace Utf8

def isContinuation (b : UInt8) : Bool := 0x80 ≤ b && b ≤ 0xbf

/-- How many bytes follow a leading byte beyond ASCII, and the range of the first of them. The
narrower ranges exclude overlong forms, surrogates and values past U+10FFFF. -/
def following? (lead : UInt8) : Option (Nat × UInt8 × UInt8) :=
  if lead < 0xc2 then none
  else if lead < 0xe0 then some (1, 0x80, 0xbf)
  else if lead = 0xe0 then some (2, 0xa0, 0xbf)
  else if lead = 0xed then some (2, 0x80, 0x9f)
  else if lead < 0xf0 then some (2, 0x80, 0xbf)
  else if lead = 0xf0 then some (3, 0x90, 0xbf)
  else if lead < 0xf4 then some (3, 0x80, 0xbf)
  else if lead = 0xf4 then some (3, 0x80, 0x8f)
  else none

/-- The character spelled by a leading byte's `bits` low bits and the low six bits of each of the
continuation bytes. -/
def assemble (lead bits : UInt8) (rest : Bytes) : Char :=
  Char.ofNat (rest.foldl (fun n b => n * 64 + (b &&& 0x3f).toNat) (lead &&& bits).toNat)

/-- The characters of a byte string, `none` standing for each malformed stretch: the longest run of
bytes that begins a character without completing it, or a single byte that begins none. Each comes
with the number of bytes that it takes. -/
def units : Bytes → List (Option Char × Nat)
  | [] => []
  | a :: r =>
    if a < 0x80 then (some (Char.ofNat a.toNat), 1) :: units r
    else
      match following? a, r with
      | some (n, lo, hi), b :: r =>
        if lo ≤ b && b ≤ hi then
          if n = 1 then (some (assemble a 0x1f [b]), 2) :: units r
          else
            match r with
            | [] => [(none, 2)]
            | c :: r =>
              if isContinuation c then
                if n = 2 then (some (assemble a 0x0f [b, c]), 3) :: units r
                else
                  match r with
                  | [] => [(none, 3)]
                  | d :: r =>
                    if isContinuation d then (some (assemble a 0x07 [b, c, d]), 4) :: units r
                    else (none, 3) :: units (d :: r)
              else (none, 2) :: units (c :: r)
        else (none, 1) :: units (b :: r)
      | _, r => (none, 1) :: units r

def decode? (bytes : Bytes) : Option String :=
  (((units bytes).map Prod.fst).mapM id).map String.ofList

/-- The text of any bytes, each malformed stretch shown as U+FFFD. -/
def lossy (bytes : Bytes) : String :=
  String.ofList ((units bytes).map fun u => u.1.getD '\ufffd')

/-- The number of bytes before the first malformed stretch, if there is one. -/
def malformedAt? (bytes : Bytes) : Option Nat :=
  let sound := (units bytes).takeWhile fun u => u.1.isSome
  let length := sound.foldr (fun u n => u.2 + n) 0
  if length < bytes.length then some length else none

def encode (s : String) : Bytes := s.toList.flatMap String.utf8EncodeChar

end Utf8

end RegressionGate
