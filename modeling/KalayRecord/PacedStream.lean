import KalayRecord.MemoryStream

namespace KalayRecord

/-- How one delivery is made: the interruptions before it, and the most bytes beyond the first. -/
structure Pause where
  interruptions : Nat := 0
  extra : Option Nat := none
  deriving DecidableEq, Repr

/-- The most bytes that a delivery may hold when `n` are asked for. -/
def Pause.allowance (p : Pause) (n : Nat) : Nat :=
  match p.extra with
  | none => n
  | some extra => min n (extra + 1)

structure PacedStream where
  stream : MemoryStream
  pace : Nat → Pause
  turn : Nat := 0
  waits : Nat := (pace turn).interruptions

namespace PacedStream

def read (s : PacedStream) (n : Nat) : Delivery × PacedStream :=
  match s.waits with
  | waits + 1 => (.interrupted, { s with waits })
  | 0 =>
    let (delivery, stream) := s.stream.read ((s.pace s.turn).allowance n)
    (delivery, { s with
      stream, turn := s.turn + 1, waits := (s.pace (s.turn + 1)).interruptions })

theorem waits_lt {s s' : PacedStream} {n : Nat} (h : s.read n = (.interrupted, s')) :
    s'.waits < s.waits := by
  unfold read at h
  split at h
  next waits hw =>
    obtain ⟨_, rfl⟩ := Prod.mk.inj h
    simp [hw]
  next => exact absurd (congrArg Prod.fst h) (s.stream.read_ne_interrupted _)

end PacedStream

instance : ByteSource PacedStream where
  size s := s.stream.size
  position s := s.stream.position
  seek s p := { s with stream := { s.stream with position := p } }
  read := PacedStream.read
  patience s := s.waits
  patience_lt := PacedStream.waits_lt

end KalayRecord
