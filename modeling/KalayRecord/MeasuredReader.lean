import KalayRecord.ByteSource
import KalayRecord.Error

namespace KalayRecord

structure MeasuredReader (σ : Type) where
  source : σ
  length : Nat

/-- Steps that read from a source; a failed step leaves the cursor where its reads have put it. -/
abbrev Reading (σ : Type) := EStateM Error (MeasuredReader σ)

variable {σ : Type} [ByteSource σ]

namespace MeasuredReader

def ofSource (s : σ) : MeasuredReader σ where
  source := ByteSource.seek s 0
  length := ByteSource.size s

def position (r : MeasuredReader σ) : Nat := ByteSource.position r.source

def remaining (r : MeasuredReader σ) : Nat := r.length - r.position

end MeasuredReader

namespace Reading

def position : Reading σ Nat := return (← get).position

def remaining : Reading σ Nat := return (← get).remaining

def seek (p : Nat) : Reading σ Unit :=
  modify fun r => { r with source := ByteSource.seek r.source p }

/-- Moves over `n` bytes without reading them. -/
def skip (n : Nat) (field : String) : Reading σ Unit := do
  let available ← remaining
  if available < n then throw (.truncatedInput field n available)
  seek ((← position) + n)

/-- The next `n` bytes, or those left when the data ends before. -/
def upTo (n : Nat) : Reading σ Bytes := fun r =>
  match ByteSource.gather r.source n with
  | (.ok bytes, source) => .ok bytes { r with source }
  | (.error reason, source) => .error (.io reason) { r with source }

/-- Exactly the next `n` bytes, refused before any is read where the measured length has fewer. Data
that ends before that length is used up. -/
def exactly (n : Nat) (field : String) : Reading σ Bytes := do
  let available ← remaining
  if available < n then throw (.truncatedInput field n available)
  let bytes ← upTo n
  if bytes.length < n then throw (.io "failed to fill whole buffer")
  return bytes

def uint8 (field : String) : Reading σ UInt8 :=
  return .ofNat (ofLittleEndian (← exactly 1 field))

def uint16 (field : String) : Reading σ UInt16 :=
  return .ofNat (ofLittleEndian (← exactly 2 field))

def uint32 (field : String) : Reading σ UInt32 :=
  return .ofNat (ofLittleEndian (← exactly 4 field))

def uint64 (field : String) : Reading σ UInt64 :=
  return .ofNat (ofLittleEndian (← exactly 8 field))

def uint32BigEndian (field : String) : Reading σ UInt32 :=
  return .ofNat (ofBigEndian (← exactly 4 field))

end Reading

end KalayRecord
