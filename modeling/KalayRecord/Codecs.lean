namespace KalayRecord

inductive MediaKind where
  | video
  | audio
  deriving DecidableEq, Repr

namespace MediaKind

def name : MediaKind → String
  | .video => "video"
  | .audio => "audio"

def streamIndex : MediaKind → Nat
  | .video => 0
  | .audio => 1

end MediaKind

inductive Codec where
  | mpeg4 | h263 | h264 | mjpeg | hevc
  | aac | pcmMulaw | pcmAlaw | adpcmSwf | pcmU8 | pcmS16Le | speex | mp3 | adpcmG726
  | unidentified
  deriving DecidableEq, Repr

namespace Codec

def all : List Codec :=
  [.mpeg4, .h263, .h264, .mjpeg, .hevc, .aac, .pcmMulaw, .pcmAlaw, .adpcmSwf, .pcmU8, .pcmS16Le,
    .speex, .mp3, .adpcmG726, .unidentified]

def name : Codec → String
  | .mpeg4 => "mpeg4"
  | .h263 => "h263"
  | .h264 => "h264"
  | .mjpeg => "mjpeg"
  | .hevc => "hevc"
  | .aac => "aac"
  | .pcmMulaw => "pcm_mulaw"
  | .pcmAlaw => "pcm_alaw"
  | .adpcmSwf => "adpcm_swf"
  | .pcmU8 => "pcm_u8"
  | .pcmS16Le => "pcm_s16le"
  | .speex => "speex"
  | .mp3 => "mp3"
  | .adpcmG726 => "adpcm_g726"
  | .unidentified => "none"

/-- The name used in documents, which parts all words. -/
def tag : Codec → String
  | .pcmS16Le => "pcm_s16_le"
  | codec => codec.name

def ofTag? (tag : String) : Option Codec := all.find? (·.tag = tag)

end Codec

inductive VideoCodec where
  | mpeg4 | h263 | h264 | mjpeg | hevc
  | unknown (byte : UInt8)
  deriving DecidableEq, Repr

namespace VideoCodec

def ofByte : UInt8 → VideoCodec
  | 0x4C => .mpeg4
  | 0x4D => .h263
  | 0x4E => .h264
  | 0x4F => .mjpeg
  | 0x50 => .hevc
  | byte => .unknown byte

def codec : VideoCodec → Codec
  | .mpeg4 => .mpeg4
  | .h263 => .h263
  | .h264 => .h264
  | .mjpeg => .mjpeg
  | .hevc => .hevc
  | .unknown _ => .unidentified

def name : VideoCodec → String
  | .mpeg4 => "Mpeg4"
  | .h263 => "H263"
  | .h264 => "H264"
  | .mjpeg => "Mjpeg"
  | .hevc => "Hevc"
  | .unknown _ => "Unknown"

def unknownByte? : VideoCodec → Option UInt8
  | .unknown byte => some byte
  | _ => none

end VideoCodec

inductive SampleRate where
  | hz8000 | hz11000 | hz12000 | hz16000 | hz22000 | hz24000 | hz32000 | hz44000 | hz48000
  deriving DecidableEq, Repr

namespace SampleRate

/-- Codes without a rate stand for the lowest one. -/
def ofCode : UInt8 → SampleRate
  | 1 => .hz11000
  | 2 => .hz12000
  | 3 => .hz16000
  | 4 => .hz22000
  | 5 => .hz24000
  | 6 => .hz32000
  | 7 => .hz44000
  | 8 => .hz48000
  | _ => .hz8000

def code : SampleRate → UInt8
  | .hz8000 => 0
  | .hz11000 => 1
  | .hz12000 => 2
  | .hz16000 => 3
  | .hz22000 => 4
  | .hz24000 => 5
  | .hz32000 => 6
  | .hz44000 => 7
  | .hz48000 => 8

def hertz : SampleRate → UInt32
  | .hz8000 => 8000
  | .hz11000 => 11000
  | .hz12000 => 12000
  | .hz16000 => 16000
  | .hz22000 => 22000
  | .hz24000 => 24000
  | .hz32000 => 32000
  | .hz44000 => 44000
  | .hz48000 => 48000

end SampleRate

structure AudioFormat where
  sampleRate : UInt32
  channels : UInt16
  bitsPerSample : UInt16
  deriving DecidableEq, Repr

/-- Bit 0 of the flag selects stereo and bit 1 selects 16-bit samples; the rest is a rate code. -/
def AudioFormat.ofFlag (flag : UInt8) : AudioFormat where
  sampleRate := (SampleRate.ofCode (flag >>> 2)).hertz
  channels := if flag &&& 1 = 0 then 1 else 2
  bitsPerSample := if flag &&& 2 = 0 then 8 else 16

inductive AudioCodec where
  | aacRaw | aacAdts | aacLatm | g711Mulaw | g711Alaw | adpcm | pcm | speex | mp3 | g726
  | unknown (byte : UInt8)
  deriving DecidableEq, Repr

namespace AudioCodec

def ofByte : UInt8 → AudioCodec
  | 0x86 => .aacRaw
  | 0x87 => .aacAdts
  | 0x88 => .aacLatm
  | 0x89 => .g711Mulaw
  | 0x8A => .g711Alaw
  | 0x8B => .adpcm
  | 0x8C => .pcm
  | 0x8D => .speex
  | 0x8E => .mp3
  | 0x8F => .g726
  | byte => .unknown byte

/-- The sample width decides which PCM it is. -/
def codec (format : AudioFormat) : AudioCodec → Codec
  | .aacRaw | .aacAdts | .aacLatm => .aac
  | .g711Mulaw => .pcmMulaw
  | .g711Alaw => .pcmAlaw
  | .adpcm => .adpcmSwf
  | .pcm => if format.bitsPerSample = 8 then .pcmU8 else .pcmS16Le
  | .speex => .speex
  | .mp3 => .mp3
  | .g726 => .adpcmG726
  | .unknown _ => .unidentified

def needsFraming : AudioCodec → Bool
  | .aacAdts | .aacLatm | .mp3 => true
  | _ => false

def name : AudioCodec → String
  | .aacRaw => "AacRaw"
  | .aacAdts => "AacAdts"
  | .aacLatm => "AacLatm"
  | .g711Mulaw => "G711Mulaw"
  | .g711Alaw => "G711Alaw"
  | .adpcm => "Adpcm"
  | .pcm => "Pcm"
  | .speex => "Speex"
  | .mp3 => "Mp3"
  | .g726 => "G726"
  | .unknown _ => "Unknown"

def unknownByte? : AudioCodec → Option UInt8
  | .unknown byte => some byte
  | _ => none

end AudioCodec

end KalayRecord
