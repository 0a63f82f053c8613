import KalayRecord.LossyText
import KalayRecord.MeasuredReader

namespace KalayRecord

def magic : Bytes := [0x6B, 0x72, 0x66]

structure RecordingHeader where
  fileLength : UInt32
  sectionType : UInt32
  version : UInt32
  encryptType : UInt32
  uuid : String
  channel : UInt32
  createTime : UInt64
  extraHeaderFlag : UInt8
  deriving DecidableEq, Repr

namespace RecordingHeader

def size : Nat := 72

/-- The size of the extension that follows a header whose extra header flag is set. -/
def extraSize : Nat := 4

def uuidSize : Nat := 40

/-- The text before the first zero byte. -/
def uuidText (raw : Bytes) : String := LossyText.decode (raw.takeWhile (· ≠ 0))

variable {σ : Type} [ByteSource σ]

def read : Reading σ RecordingHeader := do
  let found ← Reading.exactly magic.length "file magic"
  if found ≠ magic then throw (.invalidMagic found)
  let fileLength ← Reading.uint32 "file length"
  let sectionType ← Reading.uint32BigEndian "section type"
  let version ← Reading.uint32 "version"
  let encryptType ← Reading.uint32BigEndian "encrypt type"
  let uuid ← Reading.exactly uuidSize "uuid"
  let channel ← Reading.uint32 "channel"
  let createTime ← Reading.uint64 "create time"
  let extraHeaderFlag ← Reading.uint8 "extra header flag"
  return { fileLength, sectionType, version, encryptType, uuid := uuidText uuid, channel,
           createTime, extraHeaderFlag }

def hasExtraHeader (h : RecordingHeader) : Bool := h.extraHeaderFlag != 0

def isEncrypted (h : RecordingHeader) : Bool := h.encryptType != 0

def mediaDataOffset (h : RecordingHeader) : Nat :=
  if h.hasExtraHeader then size + extraSize else size

end RecordingHeader

end KalayRecord
