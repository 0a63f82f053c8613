import KalayRecord.Codecs
import KalayRecord.FrameIndex

namespace KalayRecord

inductive IndexViolation where
  | recordSize (kind : MediaKind) (declared : UInt32) (occupied : Nat)
  | offsetOrder (frame offset previous : UInt32)
  | timestampOrder (frame timestamp previous : UInt32)
  | strayKeyframe (offset : UInt32)
  deriving DecidableEq, Repr

namespace IndexViolation

def message : IndexViolation → String
  | .recordSize kind declared occupied =>
    s!"{kind.name} track record declares {declared} bytes, header and tables occupy {occupied}"
  | .offsetOrder frame offset previous =>
    s!"frame offsets not increasing at frame {frame}: {offset} after {previous}"
  | .timestampOrder frame timestamp previous =>
    s!"timestamps decrease at frame {frame}: {timestamp} after {previous}"
  | .strayKeyframe offset => s!"keyframe offset {offset} matches no frame"

def toError (v : IndexViolation) : Error := .invalidIndex v.message

end IndexViolation

namespace FrameIndex

/-- The first frame out of order after the one before it. -/
def orderViolation? : List Frame → Option IndexViolation
  | f :: g :: frames =>
    if g.offset ≤ f.offset then some (.offsetOrder g.number g.offset f.offset)
    else if g.timestamp < f.timestamp then some (.timestampOrder g.number g.timestamp f.timestamp)
    else orderViolation? (g :: frames)
  | _ => none

def strayKeyframe? (x : FrameIndex) : Option UInt32 :=
  x.keyframeOffsets.find? fun k => !x.frames.any (·.offset == k)

/-- The first breach of the rules, those of order before those of keyframes. -/
def violation? (x : FrameIndex) : Option IndexViolation :=
  orderViolation? x.frames.toList <|> x.strayKeyframe?.map .strayKeyframe

def validate (x : FrameIndex) : Except Error Unit :=
  match x.violation? with
  | some v => .error v.toError
  | none => .ok ()

end FrameIndex

end KalayRecord
