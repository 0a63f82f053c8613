import KalayRecord.Codecs
import KalayRecord.FrameIndex
import KalayRecord.IndexTable

namespace KalayRecord

structure TrackRecord where
  size : UInt32
  type : UInt32
  codecByte : UInt8
  flag : UInt8
  /-- The id that the headers of the track's frames carry. -/
  id : UInt16
  firstTimestamp : UInt32
  lastTimestamp : UInt32
  timestamps : IndexTable
  /-- Only a video record has a table of keyframe offsets. -/
  keyframes : Option IndexTable
  sizes : IndexTable
  offsets : IndexTable
  deriving DecidableEq, Repr

namespace TrackRecord

def headerSize : Nat := 20

/-- The tables in the order in which they are stored. -/
def tables (t : TrackRecord) : List IndexTable :=
  t.timestamps :: (t.keyframes.toList ++ [t.sizes, t.offsets])

def occupiedSize (t : TrackRecord) : Nat :=
  t.tables.foldr (fun table size => IndexTable.expectedSize (.ofNat table.items.length) + size)
    headerSize

def frameTables (t : TrackRecord) : FrameTables where
  timestamps := t.timestamps.items
  keyframeOffsets := t.keyframes.elim [] (·.items)
  sizes := t.sizes.items
  offsets := t.offsets.items

variable {σ : Type} [ByteSource σ]

def read (kind : MediaKind) (checkSizes : Bool) : Reading σ TrackRecord := do
  let size ← Reading.uint32 "track size"
  let type ← Reading.uint32 "track type"
  let codecByte ← Reading.uint8 "codec id"
  let flag ← Reading.uint8 "track flag"
  let id ← Reading.uint16 "track id"
  let firstTimestamp ← Reading.uint32 "first timestamp"
  let lastTimestamp ← Reading.uint32 "last timestamp"
  let timestamps ← IndexTable.read checkSizes
  let keyframes ← match kind with
    | .video => some <$> IndexTable.read checkSizes
    | .audio => pure none
  let sizes ← IndexTable.read checkSizes
  let offsets ← IndexTable.read checkSizes
  return { size, type, codecByte, flag, id, firstTimestamp, lastTimestamp,
           timestamps, keyframes, sizes, offsets }

end TrackRecord

end KalayRecord
