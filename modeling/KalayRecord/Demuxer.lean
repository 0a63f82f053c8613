import KalayRecord.Packet
import KalayRecord.StreamInfo

namespace KalayRecord

structure Demuxer (σ : Type) where
  reader : MeasuredReader σ
  recording : Recording
  options : OpenOptions
  /-- The packets read since opening or the last rewind. -/
  packetsRead : Nat := 0

/-- What demuxers offer to a host that knows nothing of the format. -/
class PacketSource (δ : Type) where
  streams : δ → List StreamInfo
  readPacket : δ → Except Error Packet × δ
  seek : δ → (stream : Nat) → (time : Int64) → Except Error Unit × δ

namespace Demuxer

variable {σ : Type} [ByteSource σ]

def openSource (o : OpenOptions) (s : σ) : Except Error (Demuxer σ) := do
  let (recording, reader) ← Recording.openSource o s
  return { reader, recording, options := o }

def position (d : Demuxer σ) : Nat := d.reader.position

def streams (d : Demuxer σ) : List StreamInfo := d.recording.streams

def intoSource (d : Demuxer σ) : σ := d.reader.source

def readPacket (d : Demuxer σ) : Except Error Packet × Demuxer σ :=
  match Packet.readNext d.recording d.options d.reader with
  | .ok packet reader => (.ok packet, { d with reader, packetsRead := d.packetsRead + 1 })
  | .error e reader => (.error e, { d with reader })

def saturatingSum (a b : Int) : Int := max Int64.minValue.toInt (min Int64.maxValue.toInt (a + b))

/-- Goes to the keyframe for a time in milliseconds from the first video frame, and tells its
offset. Whatever stream is named, the video decides. -/
def seek (d : Demuxer σ) (_stream : Nat) (time : Int64) : Except Error Nat × Demuxer σ :=
  let target := saturatingSum time.toInt d.recording.video.firstTimestamp.toNat
  match d.recording.video.index.keyframeFor target with
  | .error e => (.error e, d)
  | .ok offset =>
    let source := ByteSource.seek d.reader.source offset.toNat
    (.ok offset.toNat, { d with reader := { d.reader with source } })

def rewind (d : Demuxer σ) : Demuxer σ :=
  let source := ByteSource.seek d.reader.source d.recording.firstFrameOffset
  { d with reader := { d.reader with source }, packetsRead := 0 }

instance : PacketSource (Demuxer σ) where
  streams := streams
  readPacket := readPacket
  seek d stream time :=
    let (result, d') := d.seek stream time
    (result.map fun _ => (), d')

end Demuxer

end KalayRecord
