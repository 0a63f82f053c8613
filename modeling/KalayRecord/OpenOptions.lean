namespace KalayRecord

structure OpenOptions where
  /-- The most bytes in which a frame marker is looked for; without it, the size of the media
  data. -/
  maxScan : Option UInt64 := none
  checkTableSizes : Bool := true
  checkIndex : Bool := false
  refuseEncrypted : Bool := false
  deriving DecidableEq, Repr

namespace OpenOptions

def warnings (o : OpenOptions) : List String :=
  (if o.maxScan = some 0 then ["max_sync_scan is 0; every packet read will fail"] else []) ++
  (if o.checkIndex ∧ ¬o.checkTableSizes then
    ["strict_index is set but validate_table_sizes is off; table sizes are unchecked"] else [])

def scanLimit (o : OpenOptions) (mediaDataSize : Nat) : Nat :=
  o.maxScan.elim mediaDataSize UInt64.toNat

end OpenOptions

end KalayRecord
