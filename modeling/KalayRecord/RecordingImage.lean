import KalayRecord.Recording

namespace KalayRecord

/-- Everything in a recording's bytes. The header has the text of the UUID, `uuid` its bytes. -/
structure RecordingImage where
  header : RecordingHeader
  uuid : Bytes
  extra : Bytes
  mediaDataSize : UInt32
  /-- The media data after its size field. -/
  mediaData : Bytes
  indexSectionSize : UInt32
  indexSectionType : UInt32
  video : TrackRecord
  audio : TrackRecord
  deriving DecidableEq, Repr

def IndexTable.encode (t : IndexTable) : Bytes :=
  toLittleEndian 4 t.size.toNat ++ toLittleEndian 4 t.type.toNat ++
    toLittleEndian 4 t.items.length ++ ofWords t.items

def TrackRecord.encode (t : TrackRecord) : Bytes :=
  toLittleEndian 4 t.size.toNat ++ toLittleEndian 4 t.type.toNat ++ [t.codecByte, t.flag] ++
    toLittleEndian 2 t.id.toNat ++ toLittleEndian 4 t.firstTimestamp.toNat ++
    toLittleEndian 4 t.lastTimestamp.toNat ++ t.tables.flatMap IndexTable.encode

/-- A header, with the bytes of its UUID. -/
def RecordingHeader.encode (h : RecordingHeader) (uuid : Bytes) : Bytes :=
  [0x6B, 0x72, 0x66] ++ toLittleEndian 4 h.fileLength.toNat ++ toBigEndian 4 h.sectionType.toNat ++
    toLittleEndian 4 h.version.toNat ++ toBigEndian 4 h.encryptType.toNat ++ uuid ++
    toLittleEndian 4 h.channel.toNat ++ toLittleEndian 8 h.createTime.toNat ++ [h.extraHeaderFlag]

namespace RecordingImage

def encode (x : RecordingImage) : Bytes :=
  x.header.encode x.uuid ++ x.extra ++ toLittleEndian 4 x.mediaDataSize.toNat ++ x.mediaData ++
    toLittleEndian 4 x.indexSectionSize.toNat ++ toLittleEndian 4 x.indexSectionType.toNat ++
    x.video.encode ++ x.audio.encode

/-- What reading finds in the bytes. -/
def view (x : RecordingImage) : Recording where
  header := x.header
  mediaDataSize := x.mediaDataSize
  indexSectionSize := x.indexSectionSize
  video := .ofRecord .video x.video
  audio := .ofRecord .audio x.audio

/-- Each part has the size that the format gives it. -/
structure WellFormed (x : RecordingImage) : Prop where
  uuid_length : x.uuid.length = 40
  uuid_text : x.header.uuid = LossyText.decode (x.uuid.takeWhile (· ≠ 0))
  extra_length : x.extra.length = if x.header.extraHeaderFlag != 0 then 4 else 0
  mediaData_length : x.mediaData.length = x.mediaDataSize.toNat - 4
  video_keyframes : x.video.keyframes.isSome
  audio_keyframes : x.audio.keyframes = none
  items_length : ∀ t ∈ x.video.tables ++ x.audio.tables, t.items.length < UInt32.size

end RecordingImage

end KalayRecord
