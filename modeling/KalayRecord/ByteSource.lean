import KalayRecord.ByteOrder

namespace KalayRecord

/-- The answer to one read call; no bytes at all means that the data has ended. -/
inductive Delivery where
  | bytes (chunk : Bytes)
  | interrupted
  | failed (reason : String)
  deriving DecidableEq, Repr

class ByteSource (σ : Type) where
  /-- The length found by measuring the source, which need not be what reading it shows. -/
  size : σ → Nat
  position : σ → Nat
  seek : σ → Nat → σ
  read : σ → Nat → Delivery × σ
  /-- A bound on the interruptions before a read call is answered. -/
  patience : σ → Nat
  patience_lt : ∀ {s s' : σ} {n : Nat}, read s n = (.interrupted, s') → patience s' < patience s

namespace ByteSource

variable {σ : Type} [ByteSource σ]

def attempt (s : σ) (n : Nat) : Except String Bytes × σ :=
  match _ : read s n with
  | (.bytes chunk, s') => (.ok chunk, s')
  | (.failed reason, s') => (.error reason, s')
  | (.interrupted, s') => attempt s' n
termination_by patience s
decreasing_by exact patience_lt ‹_›

theorem attempt_of_bytes {s s' : σ} {n : Nat} {chunk : Bytes}
    (h : read s n = (.bytes chunk, s')) : attempt s n = (.ok chunk, s') := by
  rw [attempt]
  split <;> simp_all

theorem attempt_of_failed {s s' : σ} {n : Nat} {reason : String}
    (h : read s n = (.failed reason, s')) : attempt s n = (.error reason, s') := by
  rw [attempt]
  split <;> simp_all

theorem attempt_of_interrupted {s s' : σ} {n : Nat}
    (h : read s n = (.interrupted, s')) : attempt s n = attempt s' n := by
  rw [attempt]
  split <;> simp_all

/-- The next `n` bytes, or those left when the data ends before. -/
def gather (s : σ) (n : Nat) : Except String Bytes × σ :=
  if n = 0 then (.ok [], s) else
  match attempt s n with
  | (.error reason, s') => (.error reason, s')
  | (.ok [], s') => (.ok [], s')
  | (.ok (b :: chunk), s') =>
    let (rest, s'') := gather s' (n - (chunk.length + 1))
    (rest.map ((b :: chunk) ++ ·), s'')
termination_by n

end ByteSource

end KalayRecord
