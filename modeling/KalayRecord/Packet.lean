import KalayRecord.MarkerScan
import KalayRecord.Recording

namespace KalayRecord

structure Packet where
  kind : MediaKind
  /-- In milliseconds from the first video frame, for audio as well. -/
  pts : Int
  isKeyframe : Bool
  number : UInt32
  recordOffset : UInt32
  recordSize : UInt32
  /-- Where the payload was read. -/
  position : Nat
  data : Bytes
  deriving DecidableEq, Repr

namespace Packet

def streamIndex (p : Packet) : Nat := p.kind.streamIndex

def dts (p : Packet) : Int := p.pts

def headerSize : Nat := 8

/-- A size too small for the header leaves no payload. -/
def payloadSize (f : Frame) : Nat := f.size.toNat - headerSize

def ofFrame (r : Recording) (t : Track) (number : UInt32) (f : Frame) (position : Nat)
    (data : Bytes) : Packet where
  kind := t.kind
  pts := f.timestamp.toNat - r.video.firstTimestamp.toNat
  isKeyframe := t.kind = .video ∧ f.isKeyframe
  number
  recordOffset := f.offset
  recordSize := f.size
  position
  data

variable {σ : Type} [ByteSource σ]

/-- Reads the frame that follows the marker at `offset`: the id of its track, its number, and a payload
whose size only the index knows. -/
def readFrame (r : Recording) (offset : Nat) : Reading σ Packet := do
  let id ← Reading.uint16 "frame track id"
  let number ← Reading.uint32 "frame index"
  let some track := r.trackById? id | throw (.unknownTrack id offset)
  let some frame := track.index.get? number | throw (.indexOutOfRange number track.index.size)
  let position ← Reading.position
  let available ← Reading.remaining
  let expected := payloadSize frame
  if available < expected then throw (.truncatedFrame number expected available)
  let data ← Reading.exactly expected "frame payload"
  return ofFrame r track number frame position data

def readNext (r : Recording) (o : OpenOptions) : Reading σ Packet := do
  if r.mediaDataEnd ≤ (← Reading.position) ∨ (← Reading.remaining) = 0 then throw .endOfStream
  let offset ← MarkerScan.findMarker r.mediaDataEnd (o.scanLimit r.mediaDataSize.toNat)
  readFrame r offset

end Packet

end KalayRecord
