import KalayRecord.JsonRecord
import KalayRecord.StreamInfo

namespace KalayRecord

namespace OpenOptions

def fields : List String :=
  ["max_sync_scan", "validate_table_sizes", "strict_index", "reject_encrypted"]

def toJson (o : OpenOptions) : Json :=
  .ofMembers [
    ("max_sync_scan", .ofOption (fun n => .ofNat n.toNat) o.maxScan),
    ("validate_table_sizes", .bool o.checkTableSizes),
    ("strict_index", .bool o.checkIndex),
    ("reject_encrypted", .bool o.refuseEncrypted)]

def scanBound? : Json → Option (Option UInt64)
  | .null => some none
  | j => (j.toNatBelow? UInt64.size).map fun n => some (.ofNat n)

/-- Fields that are not given have their default. -/
def ofJson? (j : Json) : Option OpenOptions := do
  let [scan, sizes, strict, encrypted] ← j.fieldValues? fields | none
  let o : OpenOptions := {}
  return { maxScan := ← scan.elim (some o.maxScan) scanBound?
           checkTableSizes := ← sizes.elim (some o.checkTableSizes) Json.toBool?
           checkIndex := ← strict.elim (some o.checkIndex) Json.toBool?
           refuseEncrypted := ← encrypted.elim (some o.refuseEncrypted) Json.toBool? }

/-- Reads options from their document. The reason of a failure ends at its colon; the words of the
JSON parser, which would follow there, are left out. -/
def ofText (s : String) : Except Error OpenOptions :=
  match Json.ofText? s >>= ofJson? with
  | some o => .ok o
  | none => .error (.config "config parse error: ")

end OpenOptions

namespace Codec

def toJson (codec : Codec) : Json := .ofString codec.tag

/-- A codec is written as its tag, or as an object with the tag as its one key and `null` under
it. -/
def ofJson? : Json → Option Codec
  | .string tag => tag.toString? >>= ofTag?
  | .object [(tag, .null)] => tag.toString? >>= ofTag?
  | _ => none

end Codec

namespace AudioFormat

def fields : List String := ["sample_rate", "channels", "bits_per_sample"]

def toJson (a : AudioFormat) : Json :=
  .ofMembers [
    ("sample_rate", .ofNat a.sampleRate.toNat),
    ("channels", .ofNat a.channels.toNat),
    ("bits_per_sample", .ofNat a.bitsPerSample.toNat)]

def ofJson? (j : Json) : Option AudioFormat := do
  let [some rate, some channels, some bits] ← j.fieldValues? fields | none
  return { sampleRate := .ofNat (← rate.toNatBelow? UInt32.size)
           channels := .ofNat (← channels.toNatBelow? UInt16.size)
           bitsPerSample := .ofNat (← bits.toNatBelow? UInt16.size) }

end AudioFormat

def codecJson (name : String) : (unknownByte : Option UInt8) → Json
  | none => .ofString name
  | some byte => .ofMembers [(name, .ofNat byte.toNat)]

def VideoCodec.toJson (codec : VideoCodec) : Json := codecJson codec.name codec.unknownByte?

def AudioCodec.toJson (codec : AudioCodec) : Json := codecJson codec.name codec.unknownByte?

def RecordingHeader.toJson (h : RecordingHeader) : Json :=
  .ofMembers [
    ("file_length", .ofNat h.fileLength.toNat),
    ("section_type", .ofNat h.sectionType.toNat),
    ("version", .ofNat h.version.toNat),
    ("encrypt_type", .ofNat h.encryptType.toNat),
    ("uuid", .ofString h.uuid),
    ("channel", .ofNat h.channel.toNat),
    ("create_time", .ofNat h.createTime.toNat),
    ("extra_header_flag", .ofNat h.extraHeaderFlag.toNat)]

def Frame.toJson (f : Frame) : Json :=
  .ofMembers [
    ("index", .ofNat f.number.toNat),
    ("timestamp", .ofNat f.timestamp.toNat),
    ("offset", .ofNat f.offset.toNat),
    ("size", .ofNat f.size.toNat),
    ("is_keyframe", .bool f.isKeyframe)]

def FrameIndex.framesJson (x : FrameIndex) : Json := .array (x.frames.toList.map Frame.toJson)

def TimeBase.toJson (b : TimeBase) : Json :=
  .ofMembers [("num", .ofNat b.num.toNat), ("den", .ofNat b.den.toNat)]

def StreamInfo.toJson (s : StreamInfo) : Json :=
  .ofMembers [
    ("index", .ofNat s.index),
    ("kind", .ofString s.kind.name),
    ("codec", s.codec.toJson),
    ("track_id", .ofNat s.trackId.toNat),
    ("time_base", s.timeBase.toJson),
    ("start_time", .ofInt s.startTime),
    ("duration", .ofInt s.duration),
    ("audio", .ofOption AudioFormat.toJson s.audio),
    ("needs_parsing", .bool s.needsFraming)]

end KalayRecord
