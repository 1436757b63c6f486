/-!
# UTF-8

`encode` writes a string as bytes.  `scan` reads bytes from left to right as a sequence of
characters and ill-formed parts, where an ill-formed part is as long as it can be: a first byte
with the continuation bytes that some character could still have had there.  `decode?` refuses a
text with an ill-formed part, and `decodeLossy` puts U+FFFD in the place of each.
-/

namespace ResponseFraming

abbrev Bytes := List UInt8

namespace Utf8

def encode (s : String) : Bytes := s.toList.flatMap String.utf8EncodeChar

/-- A character whose first bytes have been read: their value, the range of the next byte, and
how many bytes follow that one. -/
structure Unfinished where
  value : Nat
  low : UInt8
  high : UInt8
  more : Nat
deriving DecidableEq, Repr

/-- What a byte gives: the characters and ill-formed parts that it ends, and the character that
it leaves unfinished. -/
structure Progress where
  ended : List (Option Char)
  unfinished : Option Unfinished
deriving DecidableEq, Repr

/-- A byte where a character begins.  The second byte's range keeps out overlong forms,
surrogates and values above U+10FFFF. -/
def start (b : UInt8) : Progress :=
  if b ≤ 0x7F then ⟨[some (Char.ofNat b.toNat)], none⟩
  else if 0xC2 ≤ b ∧ b ≤ 0xDF then ⟨[], some ⟨b.toNat - 0xC0, 0x80, 0xBF, 0⟩⟩
  else if b = 0xE0 then ⟨[], some ⟨0, 0xA0, 0xBF, 1⟩⟩
  else if b = 0xED then ⟨[], some ⟨0xD, 0x80, 0x9F, 1⟩⟩
  else if 0xE1 ≤ b ∧ b ≤ 0xEF then ⟨[], some ⟨b.toNat - 0xE0, 0x80, 0xBF, 1⟩⟩
  else if b = 0xF0 then ⟨[], some ⟨0, 0x90, 0xBF, 2⟩⟩
  else if b = 0xF4 then ⟨[], some ⟨4, 0x80, 0x8F, 2⟩⟩
  else if 0xF1 ≤ b ∧ b ≤ 0xF3 then ⟨[], some ⟨b.toNat - 0xF0, 0x80, 0xBF, 2⟩⟩
  else ⟨[none], none⟩

/-- A byte inside a character.  One out of range ends an ill-formed part and is read again as a
first byte. -/
def resume (u : Unfinished) (b : UInt8) : Progress :=
  if u.low ≤ b ∧ b ≤ u.high then
    let value := u.value * 64 + (b.toNat - 0x80)
    match u.more with
    | 0 => ⟨[some (Char.ofNat value)], none⟩
    | more + 1 => ⟨[], some ⟨value, 0x80, 0xBF, more⟩⟩
  else ⟨none :: (start b).ended, (start b).unfinished⟩

def step : Option Unfinished → UInt8 → Progress
  | none, b => start b
  | some u, b => resume u b

/-- The characters and ill-formed parts of a text; `none` is an ill-formed part. -/
def scan (unfinished : Option Unfinished) : Bytes → List (Option Char)
  | [] => if unfinished.isSome then [none] else []
  | b :: rest => (step unfinished b).ended ++ scan (step unfinished b).unfinished rest

def decode? (bytes : Bytes) : Option String := ((scan none bytes).mapM id).map String.ofList

/-- The text with U+FFFD for each ill-formed part. -/
def decodeLossy (bytes : Bytes) : String :=
  String.ofList ((scan none bytes).map (·.getD '\uFFFD'))

end Utf8

end ResponseFraming
