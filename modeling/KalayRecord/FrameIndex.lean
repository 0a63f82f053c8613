import KalayRecord.Error
import KalayRecord.PartitionPoint

namespace KalayRecord

structure Frame where
  number : UInt32
  /-- In milliseconds, on the clock of the recording. -/
  timestamp : UInt32
  /-- Where the frame's marker is. -/
  offset : UInt32
  /-- The size of the frame's record, its 8-byte header included. -/
  size : UInt32
  isKeyframe : Bool
  deriving DecidableEq, Repr

structure FrameIndex where
  frames : Array Frame
  keyframeOffsets : Array UInt32
  deriving DecidableEq, Repr

structure FrameTables where
  timestamps : List UInt32 := []
  keyframeOffsets : List UInt32 := []
  sizes : List UInt32 := []
  offsets : List UInt32 := []
  deriving DecidableEq, Repr

namespace FrameTables

inductive Column where
  | timestamps | keyframeOffsets | sizes | offsets
  deriving DecidableEq, Repr

def set (t : FrameTables) (items : List UInt32) : Column → FrameTables
  | .timestamps => { t with timestamps := items }
  | .keyframeOffsets => { t with keyframeOffsets := items }
  | .sizes => { t with sizes := items }
  | .offsets => { t with offsets := items }

/-- The frames numbered from `i` on; they end with the shortest table. -/
def joinFrom (keyframes : List UInt32) :
    (i : Nat) → (timestamps sizes offsets : List UInt32) → List Frame
  | i, timestamp :: timestamps, size :: sizes, offset :: offsets =>
    { number := .ofNat i, timestamp, offset, size, isKeyframe := keyframes.contains offset } ::
      joinFrom keyframes (i + 1) timestamps sizes offsets
  | _, _, _, _ => []

def build (t : FrameTables) : FrameIndex where
  frames := (joinFrom t.keyframeOffsets 0 t.timestamps t.sizes t.offsets).toArray
  keyframeOffsets := t.keyframeOffsets.toArray

end FrameTables

namespace FrameIndex

def size (x : FrameIndex) : Nat := x.frames.size

def get? (x : FrameIndex) (i : UInt32) : Option Frame := x.frames[i.toNat]?

def lastTimestamp? (x : FrameIndex) : Option UInt32 := x.frames.back?.map (·.timestamp)

def frameAtOrAfter? (x : FrameIndex) (time : Int) : Option Frame :=
  x.frames[partitionPoint (fun f => (f.timestamp.toNat : Int) < time) x.frames]?

/-- The last entry of the keyframe table at or before an offset. -/
def keyframeAtOrBefore? (x : FrameIndex) (offset : UInt32) : Option UInt32 :=
  match partitionPoint (· ≤ offset) x.keyframeOffsets with
  | 0 => none
  | n + 1 => x.keyframeOffsets[n]?

/-- The keyframe from which the first frame at or after a time can be decoded. A frame before every
keyframe has the first of them. -/
def keyframeFor (x : FrameIndex) (time : Int) : Except Error UInt32 := do
  let some frame := x.frameAtOrAfter? time
    | throw (.seekOutOfRange time (x.lastTimestamp?.elim (-1) fun last => last.toNat))
  let some first := x.keyframeOffsets[0]?
    | throw .noKeyframes
  return (x.keyframeAtOrBefore? frame.offset).getD first

end FrameIndex

end KalayRecord
