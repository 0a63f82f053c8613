import KalayRecord.ByteOrder

namespace KalayRecord.LossyText

def replacement : Char := '\uFFFD'

/-- A character that has begun: the bytes it still needs, the range of the next one, and the bits
read so far. -/
structure Pending where
  left : Nat
  low : UInt8 := 0x80
  high : UInt8 := 0xBF
  bits : Nat
  deriving DecidableEq, Repr

inductive Opening where
  | char (c : Char)
  | start (p : Pending)
  | stray
  deriving DecidableEq, Repr

/-- The bounds on the second byte shut out overlong forms, surrogates and all past U+10FFFF. -/
def opening (b : UInt8) : Opening :=
  let n := b.toNat
  if b ≤ 0x7F then .char (Char.ofNat n)
  else if b < 0xC2 then .stray
  else if b ≤ 0xDF then .start { left := 1, bits := n - 0xC0 }
  else if b = 0xE0 then .start { left := 2, low := 0xA0, bits := n - 0xE0 }
  else if b = 0xED then .start { left := 2, high := 0x9F, bits := n - 0xE0 }
  else if b ≤ 0xEF then .start { left := 2, bits := n - 0xE0 }
  else if b = 0xF0 then .start { left := 3, low := 0x90, bits := n - 0xF0 }
  else if b ≤ 0xF3 then .start { left := 3, bits := n - 0xF0 }
  else if b = 0xF4 then .start { left := 3, high := 0x8F, bits := n - 0xF0 }
  else .stray

def resume (b : UInt8) (next : Option Pending → List Char) : List Char :=
  match opening b with
  | .char c => c :: next none
  | .start p => next (some p)
  | .stray => replacement :: next none

def decodeFrom : Option Pending → Bytes → List Char
  | none, [] => []
  | some _, [] => [replacement]
  | none, b :: bytes => resume b fun p => decodeFrom p bytes
  | some p, b :: bytes =>
    if p.low ≤ b ∧ b ≤ p.high then
      let bits := 64 * p.bits + (b.toNat - 0x80)
      if p.left = 1 then Char.ofNat bits :: decodeFrom none bytes
      else decodeFrom (some { left := p.left - 1, bits }) bytes
    else replacement :: resume b fun p => decodeFrom p bytes

/-- Bytes as UTF-8 text, whatever they are: each longest run that starts a character but cannot go on
becomes one replacement character, and so does each byte that starts none. -/
def decode (bytes : Bytes) : String := String.ofList (decodeFrom none bytes)

end KalayRecord.LossyText
