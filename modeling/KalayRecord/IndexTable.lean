import KalayRecord.MeasuredReader

namespace KalayRecord

structure IndexTable where
  size : UInt32
  type : UInt32
  items : List UInt32
  deriving DecidableEq, Repr

namespace IndexTable

def headerSize : Nat := 12

/-- The size of a table with `count` items. -/
def expectedSize (count : UInt32) : Nat := headerSize + 4 * count.toNat

variable {σ : Type} [ByteSource σ]

/-- Reads a table; with `checkSize` its size field has to be that of its item count. A count that
the source cannot hold is refused before that check, and before any item is read. -/
def read (checkSize : Bool) : Reading σ IndexTable := do
  let size ← Reading.uint32 "table size"
  let type ← Reading.uint32 "table type"
  let count ← Reading.uint32 "table count"
  let need := 4 * count.toNat
  let available ← Reading.remaining
  if available < need then throw (.truncatedInput "table items" need available)
  if checkSize ∧ size.toNat ≠ expectedSize count then throw (.malformedTable size count)
  let items ← Reading.exactly need "table items"
  return { size, type, items := words items }

end IndexTable

end KalayRecord
