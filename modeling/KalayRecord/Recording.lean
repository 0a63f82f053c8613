import KalayRecord.RecordingHeader
import KalayRecord.OpenOptions
import KalayRecord.Track

namespace KalayRecord

structure Recording where
  header : RecordingHeader
  /-- The size of the media data, its own size field included. -/
  mediaDataSize : UInt32
  indexSectionSize : UInt32
  video : Track
  audio : Track
  deriving DecidableEq, Repr

namespace Recording

def mediaDataHeaderSize : Nat := 8

def mediaDataOffset (r : Recording) : Nat := r.header.mediaDataOffset

def firstFrameOffset (r : Recording) : Nat := r.mediaDataOffset + mediaDataHeaderSize

/-- The offset just past the media data. -/
def mediaDataEnd (r : Recording) : Nat := r.mediaDataOffset + r.mediaDataSize.toNat

def duration (r : Recording) : Int := r.video.duration

/-- The track that a frame header names; the video track goes first where both have one id. -/
def trackById? (r : Recording) (id : UInt16) : Option Track :=
  if id = r.video.id then some r.video
  else if id = r.audio.id then some r.audio
  else none

def validate (r : Recording) : Except Error Unit := do
  r.video.validate
  r.audio.validate

variable {σ : Type} [ByteSource σ]

/-- Reads a recording and goes to its first frame. A media data size below that of its own field
counts as that of the field. -/
def read (o : OpenOptions) : Reading σ Recording := do
  Reading.seek 0
  let header ← RecordingHeader.read
  if header.isEncrypted ∧ o.refuseEncrypted then throw (.encrypted header.encryptType)
  Reading.seek header.mediaDataOffset
  let mediaDataSize ← Reading.uint32 "media data size"
  Reading.skip (mediaDataSize.toNat - 4) "media data"
  let indexSectionSize ← Reading.uint32 "index section size"
  Reading.skip 4 "index section type"
  let video ← TrackRecord.read .video o.checkTableSizes
  let audio ← TrackRecord.read .audio o.checkTableSizes
  let recording := { header, mediaDataSize, indexSectionSize
                     video := .ofRecord .video video, audio := .ofRecord .audio audio }
  if o.checkIndex then
    if let .error e := recording.validate then throw e
  Reading.seek recording.firstFrameOffset
  return recording

def openSource (o : OpenOptions) (s : σ) : Except Error (Recording × MeasuredReader σ) :=
  match read o (MeasuredReader.ofSource s) with
  | .ok recording reader => .ok (recording, reader)
  | .error e _ => .error e

end Recording

end KalayRecord
