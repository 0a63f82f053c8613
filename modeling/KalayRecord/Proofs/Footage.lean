import KalayRecord.Packet
import KalayRecord.RecordingImage
import KalayRecord.Proofs.MarkerSearch

namespace KalayRecord

/-- A frame, and the bytes that stand before its record. -/
structure Shot where
  kind : MediaKind
  timestamp : UInt32
  payload : Bytes
  /-- The keyframe mark, which says nothing of an audio frame. -/
  marked : Bool
  gap : Bytes
  deriving DecidableEq, Repr

/-- A frame with its number in its track, and where its record begins. -/
structure FrameRecord extends Shot where
  number : Nat
  offset : Nat
  deriving DecidableEq, Repr

namespace FrameRecord

def size (r : FrameRecord) : Nat := Packet.headerSize + r.payload.length

def encode (r : FrameRecord) (id : UInt16) : Bytes :=
  marker ++ toLittleEndian 2 id.toNat ++ toLittleEndian 4 r.number ++ r.payload

/-- What the index says of the record. -/
def frame (r : FrameRecord) (isKeyframe : Bool) : Frame where
  number := .ofNat r.number
  timestamp := r.timestamp
  offset := .ofNat r.offset
  size := .ofNat r.size
  isKeyframe

/-- What is read from the record, with the first timestamp of the video. -/
def packet (r : FrameRecord) (firstTimestamp : UInt32) : Packet where
  kind := r.kind
  pts := r.timestamp.toNat - firstTimestamp.toNat
  isKeyframe := r.kind = .video ∧ r.marked
  number := .ofNat r.number
  recordOffset := .ofNat r.offset
  recordSize := .ofNat r.size
  position := r.offset + Packet.headerSize
  data := r.payload

theorem size_pos (r : FrameRecord) : 0 < r.size := by
  unfold size Packet.headerSize
  omega

@[simp] theorem length_encode (r : FrameRecord) (id : UInt16) : (r.encode id).length = r.size := by
  simp [encode, size, marker, Packet.headerSize]
  omega

end FrameRecord

namespace Shot

def count (next : MediaKind → Nat) (kind : MediaKind) : MediaKind → Nat :=
  fun k => if k = kind then next k + 1 else next k

/-- The records of the frames, from an offset on and with the numbers that come next. -/
def recordsFrom : (offset : Nat) → (next : MediaKind → Nat) → List Shot → List FrameRecord
  | _, _, [] => []
  | offset, next, s :: shots =>
    let r : FrameRecord :=
      { toShot := s, number := next s.kind, offset := offset + s.gap.length }
    r :: recordsFrom (r.offset + r.size) (count next s.kind) shots

theorem recordsFrom_toShot (offset : Nat) (next : MediaKind → Nat) (shots : List Shot) :
    (recordsFrom offset next shots).map (·.toShot) = shots := by
  induction shots generalizing offset next with
  | nil => rfl
  | cons s shots ih => rw [recordsFrom, List.map_cons, ih]

theorem number_recordsFrom {offset : Nat} {next : MediaKind → Nat} {shots : List Shot}
    {kind : MediaKind} {i : Nat} {r : FrameRecord}
    (h : ((recordsFrom offset next shots).filter (·.kind = kind))[i]? = some r) :
    r.number = next kind + i := by
  induction shots generalizing offset next i with
  | nil => simp [recordsFrom] at h
  | cons s shots ih =>
    rw [recordsFrom, List.filter_cons] at h
    by_cases hkind : s.kind = kind
    · rw [if_pos (by simpa using hkind)] at h
      cases i with
      | zero =>
        cases h
        rw [hkind]
        rfl
      | succ i =>
        have hnumber := ih h
        rw [count, if_pos hkind.symm] at hnumber
        omega
    · -- a frame of the other track leaves the next number of this one as it is
      rw [if_neg (by simpa using hkind)] at h
      have hnumber := ih h
      rw [count, if_neg (Ne.symm hkind)] at hnumber
      exact hnumber

theorem le_offset_recordsFrom {offset : Nat} {next : MediaKind → Nat} {shots : List Shot}
    {r : FrameRecord} (h : r ∈ recordsFrom offset next shots) : offset ≤ r.offset := by
  induction shots generalizing offset next with
  | nil => simp [recordsFrom] at h
  | cons s shots ih =>
    rcases List.mem_cons.mp h with rfl | h
    · exact Nat.le_add_right _ _
    · have hle := ih h
      dsimp only at hle
      omega

theorem pairwise_recordsFrom (offset : Nat) (next : MediaKind → Nat) (shots : List Shot) :
    (recordsFrom offset next shots).Pairwise fun r r' => r.offset < r'.offset := by
  induction shots generalizing offset next with
  | nil => exact List.Pairwise.nil
  | cons s shots ih =>
    rw [recordsFrom]
    refine List.Pairwise.cons (fun r' h => ?_) (ih _ _)
    have hle := le_offset_recordsFrom h
    have hpos := FrameRecord.size_pos
      { toShot := s, number := next s.kind, offset := offset + s.gap.length }
    omega

end Shot

structure TrackSettings where
  size : UInt32
  type : UInt32
  codecByte : UInt8
  flag : UInt8
  id : UInt16
  firstTimestamp : UInt32
  lastTimestamp : UInt32
  tableType : FrameTables.Column → UInt32

structure Footage where
  header : RecordingHeader
  uuid : Bytes
  extra : Bytes
  mediaType : Bytes
  indexSectionSize : UInt32
  indexSectionType : UInt32
  settings : MediaKind → TrackSettings
  shots : List Shot
  /-- The bytes between the last record and the end of the media data. -/
  tail : Bytes

namespace Footage

def start (f : Footage) : Nat := f.header.mediaDataOffset + Recording.mediaDataHeaderSize

def records (f : Footage) : List FrameRecord := Shot.recordsFrom f.start (fun _ => 0) f.shots

def recordsOf (f : Footage) (kind : MediaKind) : List FrameRecord :=
  f.records.filter (·.kind = kind)

def keyRecords (f : Footage) : List FrameRecord := (f.recordsOf .video).filter (·.marked)

def id (f : Footage) (kind : MediaKind) : UInt16 := (f.settings kind).id

def encodeRecords (f : Footage) (records : List FrameRecord) : Bytes :=
  records.flatMap fun r => r.gap ++ r.encode (f.id r.kind)

def media (f : Footage) : Bytes := f.encodeRecords f.records ++ f.tail

def table (type : UInt32) (items : List UInt32) : IndexTable where
  size := .ofNat (IndexTable.expectedSize (.ofNat items.length))
  type
  items

def track (f : Footage) (kind : MediaKind) : TrackRecord :=
  let settings := f.settings kind
  let records := f.recordsOf kind
  { size := settings.size
    type := settings.type
    codecByte := settings.codecByte
    flag := settings.flag
    id := settings.id
    firstTimestamp := settings.firstTimestamp
    lastTimestamp := settings.lastTimestamp
    timestamps := table (settings.tableType .timestamps) (records.map (·.timestamp))
    keyframes := match kind with
      | .video => some <| table (settings.tableType .keyframeOffsets) <|
          f.keyRecords.map fun r => .ofNat r.offset
      | .audio => none
    sizes := table (settings.tableType .sizes) (records.map fun r => .ofNat r.size)
    offsets := table (settings.tableType .offsets) (records.map fun r => .ofNat r.offset) }

def image (f : Footage) : RecordingImage where
  header := f.header
  uuid := f.uuid
  extra := f.extra
  mediaDataSize := .ofNat (Recording.mediaDataHeaderSize + f.media.length)
  mediaData := f.mediaType ++ f.media
  indexSectionSize := f.indexSectionSize
  indexSectionType := f.indexSectionType
  video := f.track .video
  audio := f.track .audio

/-- The parts have the sizes that the format gives them, nothing between the records looks like a
marker, and all numbers fit. -/
structure Lawful (f : Footage) : Prop where
  uuid_length : f.uuid.length = RecordingHeader.uuidSize
  uuid_text : f.header.uuid = RecordingHeader.uuidText f.uuid
  extra_length : f.extra.length = if f.header.hasExtraHeader then RecordingHeader.extraSize else 0
  mediaType_length : f.mediaType.length = 4
  id_ne : f.id .video ≠ f.id .audio
  gap_unmarked : ∀ s ∈ f.shots, Unmarked s.gap
  gap_last : ∀ s ∈ f.shots, s.gap.getLast? ≠ some 0xFF
  tail_unmarked : Unmarked f.tail
  media_fits : Recording.mediaDataHeaderSize + f.media.length < 2 ^ 32
  offset_fits : ∀ r ∈ f.records, r.offset < 2 ^ 32

/-- Two video frames with an audio frame between them. The first payload has markers in it, and a
gap and the tail have halves of one. -/
def sample : Footage where
  header := { fileLength := 0, sectionType := 0, version := 1, encryptType := 0, uuid := "",
              channel := 0, createTime := 0, extraHeaderFlag := 1 }
  uuid := List.replicate 40 0
  extra := [1, 2, 3, 4]
  mediaType := [0, 0, 0, 0]
  indexSectionSize := 0
  indexSectionType := 0
  settings
    | .video => { size := 0, type := 0, codecByte := 0x4E, flag := 0, id := 1,
                  firstTimestamp := 1000, lastTimestamp := 1040, tableType := fun _ => 0 }
    | .audio => { size := 0, type := 0, codecByte := 0x86, flag := 0, id := 2,
                  firstTimestamp := 1000, lastTimestamp := 1040, tableType := fun _ => 0 }
  shots := [
    { kind := .video, timestamp := 1000, payload := [0xFF, 0xFF, 7], marked := true, gap := [] },
    { kind := .audio, timestamp := 1010, payload := [8, 0xFF], marked := false, gap := [0xFF, 0] },
    { kind := .video, timestamp := 1040, payload := [9], marked := false, gap := [] }]
  tail := [0xFF]

theorem sample_lawful : sample.Lawful where
  uuid_length := rfl
  uuid_text := by decide +kernel
  extra_length := rfl
  mediaType_length := rfl
  id_ne := by decide
  gap_unmarked := by decide
  gap_last := by decide
  tail_unmarked := by decide
  media_fits := by decide
  offset_fits := by decide

end Footage

end KalayRecord
