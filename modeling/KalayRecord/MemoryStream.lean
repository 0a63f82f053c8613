import KalayRecord.ByteSource

namespace KalayRecord

structure MemoryStream where
  contents : ByteArray
  /-- The length that measuring shows, when it is not that of the contents. -/
  measured : Option Nat := none
  /-- The first offset that cannot be read. -/
  failAt : Option Nat := none
  position : Nat := 0

namespace MemoryStream

def ofBytes (bytes : Bytes) : MemoryStream := { contents := bytes.toByteArray }

def bytes (s : MemoryStream) : Bytes := s.contents.data.toList

def size (s : MemoryStream) : Nat := s.measured.getD s.contents.size

def unreadable : String := "injected failure"

def slice (s : MemoryStream) (p n : Nat) : Bytes := (s.contents.extract p (p + n)).data.toList

theorem slice_eq (s : MemoryStream) (p n : Nat) : s.slice p n = (s.bytes.drop p).take n := by
  simp [slice, bytes, List.extract_eq_take_drop]

@[simp] theorem bytes_ofBytes (bytes : Bytes) : (ofBytes bytes).bytes = bytes := by
  simp [ofBytes, MemoryStream.bytes]

@[simp] theorem size_ofBytes (bytes : Bytes) : (ofBytes bytes).size = bytes.length := by
  simp [ofBytes, size]

def read (s : MemoryStream) (n : Nat) : Delivery × MemoryStream :=
  let deliver (n : Nat) :=
    let chunk := s.slice s.position n
    (Delivery.bytes chunk, { s with position := s.position + chunk.length })
  match s.failAt with
  | none => deliver n
  | some limit =>
    if limit ≤ s.position then (.failed unreadable, s) else deliver (min n (limit - s.position))

theorem read_ne_interrupted (s : MemoryStream) (n : Nat) : (s.read n).1 ≠ .interrupted := by
  unfold read
  split
  · simp
  · dsimp only
    split <;> simp

/-- Cuts the contents to their first `n` bytes; a measurement made before still stands. -/
def truncate (s : MemoryStream) (n : Nat) : MemoryStream :=
  { s with contents := s.contents.extract 0 n }

theorem bytes_truncate (s : MemoryStream) (n : Nat) : (s.truncate n).bytes = s.bytes.take n := by
  simp [truncate, bytes, List.extract_eq_take_drop]

end MemoryStream

instance : ByteSource MemoryStream where
  size := MemoryStream.size
  position := MemoryStream.position
  seek s p := { s with position := p }
  read := MemoryStream.read
  patience _ := 0
  patience_lt {s _ n} h := absurd (congrArg Prod.fst h) (s.read_ne_interrupted n)

namespace MemoryStream

theorem slice_length (s : MemoryStream) (p n : Nat) :
    (s.slice p n).length = min n (s.bytes.length - p) := by
  simp [slice_eq]

theorem slice_of_length_le (s : MemoryStream) {p : Nat} (h : s.bytes.length ≤ p) (n : Nat) :
    s.slice p n = [] := by
  simp [slice_eq, List.drop_eq_nil_of_le h]

theorem gather_eq (s : MemoryStream) (n : Nat) (h : s.failAt = none) :
    ByteSource.gather s n = (.ok (s.slice s.position n),
      { s with position := s.position + (s.slice s.position n).length }) := by
  induction n using Nat.strongRecOn generalizing s with
  | ind n ih =>
    rw [ByteSource.gather]
    split
    next hn => simp [hn, slice_eq]
    next hn =>
      have hread : ByteSource.read s n = (.bytes (s.slice s.position n),
          { s with position := s.position + (s.slice s.position n).length }) := by
        simp [ByteSource.read, MemoryStream.read, h]
      have hlen := s.slice_length s.position n
      rw [ByteSource.attempt_of_bytes hread]
      cases hc : s.slice s.position n with
      | nil => simp
      | cons b chunk =>
        rw [hc, List.length_cons] at hlen
        let s' : MemoryStream := { s with position := s.position + (chunk.length + 1) }
        have hrest : s'.slice s'.position (n - (chunk.length + 1)) = [] := by
          by_cases hshort : s.bytes.length ≤ s'.position
          · exact s'.slice_of_length_le hshort _
          · have hn' : n - (chunk.length + 1) = 0 := by simp [s'] at hshort; omega
            simp [hn', slice_eq]
        have hgather := ih (n - (chunk.length + 1)) (by omega) s' h
        rw [hrest] at hgather
        simp only [List.length_cons]
        rw [hgather]
        simp [s', Except.map]

end MemoryStream

end KalayRecord
