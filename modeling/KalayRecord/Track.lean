import KalayRecord.IndexRules
import KalayRecord.TrackRecord

namespace KalayRecord

structure Track where
  kind : MediaKind
  /-- The size that the track's record claims. -/
  declaredSize : UInt32
  recordType : UInt32
  codecByte : UInt8
  flag : UInt8
  id : UInt16
  firstTimestamp : UInt32
  lastTimestamp : UInt32
  /-- The size that the header and the tables of the record took when they were read. -/
  occupiedSize : Nat
  index : FrameIndex
  deriving DecidableEq, Repr

namespace Track

def ofRecord (kind : MediaKind) (t : TrackRecord) : Track where
  kind
  declaredSize := t.size
  recordType := t.type
  codecByte := t.codecByte
  flag := t.flag
  id := t.id
  firstTimestamp := t.firstTimestamp
  lastTimestamp := t.lastTimestamp
  occupiedSize := t.occupiedSize
  index := t.frameTables.build

def videoCodec? (t : Track) : Option VideoCodec :=
  match t.kind with
  | .video => some (.ofByte t.codecByte)
  | .audio => none

def audioCodec? (t : Track) : Option AudioCodec :=
  match t.kind with
  | .video => none
  | .audio => some (.ofByte t.codecByte)

def audioFormat? (t : Track) : Option AudioFormat :=
  match t.kind with
  | .video => none
  | .audio => some (.ofFlag t.flag)

def codec (t : Track) : Codec :=
  match t.kind with
  | .video => (VideoCodec.ofByte t.codecByte).codec
  | .audio => (AudioCodec.ofByte t.codecByte).codec (.ofFlag t.flag)

def needsFraming (t : Track) : Bool := t.audioCodec?.elim false AudioCodec.needsFraming

/-- In milliseconds; negative where the last timestamp lies before the first. -/
def duration (t : Track) : Int := t.lastTimestamp.toNat - t.firstTimestamp.toNat

def violation? (t : Track) : Option IndexViolation :=
  if t.declaredSize.toNat ≠ t.occupiedSize then
    some (.recordSize t.kind t.declaredSize t.occupiedSize)
  else t.index.violation?

def validate (t : Track) : Except Error Unit :=
  match t.violation? with
  | some v => .error v.toError
  | none => .ok ()

end Track

end KalayRecord
