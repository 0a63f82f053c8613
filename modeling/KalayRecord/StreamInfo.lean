import KalayRecord.Recording

namespace KalayRecord

/-- Ticks of `num / den` seconds. -/
structure TimeBase where
  num : UInt32
  den : UInt32
  deriving DecidableEq, Repr

namespace TimeBase

def millis : TimeBase := { num := 1, den := 1000 }

/-- A time base without a denominator has no seconds. -/
def seconds (b : TimeBase) (ticks : Int64) : Float :=
  if b.den = 0 then 0 else ticks.toFloat * b.num.toFloat / b.den.toFloat

end TimeBase

structure StreamInfo where
  index : Nat
  kind : MediaKind
  codec : Codec
  trackId : UInt16
  timeBase : TimeBase
  /-- In ticks; every stream starts where the video does. -/
  startTime : Int
  duration : Int
  audio : Option AudioFormat
  needsFraming : Bool
  deriving DecidableEq, Repr

namespace StreamInfo

def ofTrack (t : Track) : StreamInfo where
  index := t.kind.streamIndex
  kind := t.kind
  codec := t.codec
  trackId := t.id
  timeBase := .millis
  startTime := 0
  duration := t.duration
  audio := t.audioFormat?
  needsFraming := t.needsFraming

def durationSeconds (s : StreamInfo) : Float := s.timeBase.seconds (.ofInt s.duration)

end StreamInfo

def Recording.streams (r : Recording) : List StreamInfo := [.ofTrack r.video, .ofTrack r.audio]

end KalayRecord
