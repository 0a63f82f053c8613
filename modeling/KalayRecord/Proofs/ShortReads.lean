import KalayRecord.PacedStream
import KalayRecord.Proofs.ReadingSteps

namespace KalayRecord

namespace MemoryStream

/-- The bytes from the cursor on cannot be read. -/
def Broken (s : MemoryStream) : Prop := ∃ limit, s.failAt = some limit ∧ limit ≤ s.position

def available (s : MemoryStream) : Nat :=
  match s.failAt with
  | none => s.bytes.length - s.position
  | some limit => min (limit - s.position) (s.bytes.length - s.position)

def advance (s : MemoryStream) (n : Nat) : MemoryStream := { s with position := s.position + n }

variable {s : MemoryStream} {k n : Nat}

theorem advance_zero : s.advance 0 = s := rfl

theorem advance_advance : (s.advance k).advance n = s.advance (k + n) := by
  simp only [advance, Nat.add_assoc]

theorem available_le : s.available ≤ s.bytes.length - s.position := by
  unfold available
  split
  · exact Nat.le_refl _
  · exact Nat.min_le_right _ _

theorem length_slice_of_le (h : n ≤ s.available) : (s.slice s.position n).length = n := by
  rw [slice_length]
  exact Nat.min_eq_left (Nat.le_trans h available_le)

theorem not_broken_advance (h : n < s.available) : ¬(s.advance n).Broken := by
  rintro ⟨limit, hlimit, hle⟩
  have hfail : s.failAt = some limit := hlimit
  change limit ≤ s.position + n at hle
  simp only [available, hfail] at h
  omega

theorem available_advance : (s.advance n).available = s.available - n := by
  have hbytes : (s.advance n).bytes = s.bytes := rfl
  have hposition : (s.advance n).position = s.position + n := rfl
  obtain ⟨failAt, hfail⟩ : ∃ failAt, s.failAt = failAt := ⟨_, rfl⟩
  have hfail' : (s.advance n).failAt = failAt := hfail
  cases failAt with
  | none =>
    simp only [available, hfail, hfail', hbytes, hposition]
    omega
  | some limit =>
    simp only [available, hfail, hfail', hbytes, hposition]
    omega

theorem read_of_broken (h : s.Broken) (n : Nat) :
    ByteSource.read s n = (.failed unreadable, s) := by
  obtain ⟨limit, hlimit, hle⟩ := h
  simp [ByteSource.read, read, hlimit, hle]

theorem slice_min (s : MemoryStream) (p n : Nat) :
    s.slice p (min n (s.bytes.length - p)) = s.slice p n := by
  rw [slice_eq, slice_eq, ← List.length_drop, ← List.take_take, List.take_length]

theorem read_of_not_broken (h : ¬s.Broken) (n : Nat) :
    ByteSource.read s n = (.bytes (s.slice s.position (min n s.available)),
      s.advance (min n s.available)) := by
  obtain ⟨failAt, hfail⟩ : ∃ failAt, s.failAt = failAt := ⟨_, rfl⟩
  cases failAt with
  | none =>
    simp only [ByteSource.read, read, hfail, available, slice_min, slice_length, advance]
  | some limit =>
    have hpast : ¬limit ≤ s.position := fun hle => h ⟨limit, hfail, hle⟩
    simp only [ByteSource.read, read, hfail, if_neg hpast, available, ← Nat.min_assoc, slice_min,
      slice_length, advance]

theorem gather_of_broken (h : s.Broken) (hn : n ≠ 0) :
    ByteSource.gather s n = (.error unreadable, s) :=
  ByteSource.gather_of_failed hn (read_of_broken h n)

theorem gather_of_exhausted (h : ¬s.Broken) (havailable : s.available = 0) (hn : n ≠ 0) :
    ByteSource.gather s n = (.ok [], s) := by
  have hread := read_of_not_broken h n
  rw [havailable, Nat.min_zero, slice_eq, List.take_zero, advance_zero] at hread
  exact ByteSource.gather_of_end hn hread

/-- The stream itself delivers first the most that can be delivered. -/
theorem gather_at_once (h : ¬s.Broken) (hpos : 0 < min n s.available) :
    ByteSource.gather s n =
      ((ByteSource.gather (s.advance (min n s.available)) (n - min n s.available)).1.map
          (s.slice s.position (min n s.available) ++ ·),
        (ByteSource.gather (s.advance (min n s.available)) (n - min n s.available)).2) := by
  have hlength : (s.slice s.position (min n s.available)).length = min n s.available :=
    length_slice_of_le (Nat.min_le_right _ _)
  have hne := List.ne_nil_of_length_pos (hlength ▸ hpos)
  have hgather := ByteSource.gather_of_bytes (by omega) hne (read_of_not_broken h n)
  rw [hlength] at hgather
  exact hgather

/-- What is gathered does not show how many bytes come with the first delivery. -/
theorem gather_by_part {j : Nat} (h : ¬s.Broken) (hj : 0 < j) (hn : j ≤ n)
    (havailable : j ≤ s.available) :
    ByteSource.gather s n =
      ((ByteSource.gather (s.advance j) (n - j)).1.map (s.slice s.position j ++ ·),
        (ByteSource.gather (s.advance j) (n - j)).2) := by
  by_cases hall : j = min n s.available
  · rw [hall]
    exact gather_at_once h (by omega)
  · -- the next delivery brings the rest of what could have come with the first
    have hless : j < s.available := by omega
    have hrest : min (n - j) (s.advance j).available = min n s.available - j := by
      rw [available_advance]
      omega
    have hsum : j + (min n s.available - j) = min n s.available := by omega
    have hleft : n - j - (min n s.available - j) = n - min n s.available := by omega
    have hslice := s.slice_append_slice s.position (show j ≤ min n s.available by omega)
    rw [gather_at_once h (by omega), gather_at_once (not_broken_advance hless) (by omega), hrest,
      advance_advance, hsum, hleft, ← hslice]
    cases (ByteSource.gather (s.advance (min n s.available)) (n - min n s.available)).1 with
    | error reason => rfl
    | ok rest =>
      simp only [Except.map, List.append_assoc]
      rfl

end MemoryStream

namespace ByteSource

variable {σ : Type} [ByteSource σ] {view : σ → MemoryStream}

/-- The source has the bytes, the length and the faults of the stream in memory that `view` shows,
and delivers them at its own pace: a read call is interrupted, or it is answered as a call for one
byte at least and for as many as were asked for at most. -/
structure Delivers (view : σ → MemoryStream) : Prop where
  size (s : σ) : size s = (view s).size
  position (s : σ) : position s = (view s).position
  seek (s : σ) (p : Nat) : view (seek s p) = ByteSource.seek (view s) p
  read (s : σ) {n : Nat} (hn : n ≠ 0) :
    (∃ s', read s n = (.interrupted, s') ∧ view s' = view s) ∨
      ∃ k s', 0 < k ∧ k ≤ n ∧ read s n = ((ByteSource.read (view s) k).1, s') ∧
        view s' = (ByteSource.read (view s) k).2

namespace Delivers

theorem attempt (h : Delivers view) (s : σ) {n : Nat} (hn : n ≠ 0) :
    ∃ k s', 0 < k ∧ k ≤ n ∧ attempt s n = ((ByteSource.attempt (view s) k).1, s') ∧
      view s' = (ByteSource.attempt (view s) k).2 := by
  -- on the interruptions that are left
  induction hp : patience s using Nat.strongRecOn generalizing s with
  | ind p ih =>
    rcases h.read s hn with ⟨s', hread, hview⟩ | ⟨k, s', hk, hkn, hread, hview⟩
    · rw [attempt_of_interrupted hread, ← hview]
      exact ih (patience s') (hp ▸ patience_lt hread) s' rfl
    · cases hcall : ByteSource.read (view s) k with
      | mk delivery stream =>
        rw [hcall] at hread hview
        cases delivery with
        | bytes chunk =>
          refine ⟨k, s', hk, hkn, ?_⟩
          rw [attempt_of_bytes hread, attempt_of_bytes hcall]
          exact ⟨rfl, hview⟩
        | failed reason =>
          refine ⟨k, s', hk, hkn, ?_⟩
          rw [attempt_of_failed hread, attempt_of_failed hcall]
          exact ⟨rfl, hview⟩
        | interrupted =>
          exact absurd (congrArg Prod.fst hcall) ((view s).read_ne_interrupted k)

theorem gather (h : Delivers view) (s : σ) (n : Nat) :
    ByteSource.gather (view s) n =
      ((ByteSource.gather s n).1, view (ByteSource.gather s n).2) := by
  -- on what is still asked for, which each delivery lessens
  induction n using Nat.strongRecOn generalizing s with
  | ind n ih =>
    by_cases hn : n = 0
    · rw [hn, gather_zero, gather_zero]
    obtain ⟨k, s', hk, hkn, hattempt, hview⟩ := h.attempt s hn
    by_cases hbroken : (view s).Broken
    · rw [attempt_of_failed (MemoryStream.read_of_broken hbroken k)] at hattempt hview
      rw [gather_of_attempt_error hn hattempt, MemoryStream.gather_of_broken hbroken hn, hview]
    rw [attempt_of_bytes (MemoryStream.read_of_not_broken hbroken k)] at hattempt hview
    obtain ⟨j, hj⟩ : ∃ j, min k (view s).available = j := ⟨_, rfl⟩
    rw [hj] at hattempt hview
    dsimp only at hattempt hview
    have hlength : ((view s).slice (view s).position j).length = j :=
      MemoryStream.length_slice_of_le (by omega)
    by_cases hend : j = 0
    · have hnil := List.eq_nil_of_length_eq_zero (hlength.trans hend)
      rw [hnil] at hattempt
      rw [hend, MemoryStream.advance_zero] at hview
      rw [gather_of_attempt_end hn hattempt,
        MemoryStream.gather_of_exhausted hbroken (by omega) hn, hview]
    · have hne := List.ne_nil_of_length_pos (hlength ▸ Nat.pos_of_ne_zero hend)
      have hpart := MemoryStream.gather_by_part hbroken (j := j) (n := n) (by omega) (by omega)
        (by omega)
      rw [gather_of_attempt_bytes hn hne hattempt, hlength, hpart, ← hview,
        ih (n - j) (by omega) s']

end Delivers

end ByteSource

theorem Pause.allowance_bounds (p : Pause) {n : Nat} (hn : n ≠ 0) :
    0 < p.allowance n ∧ p.allowance n ≤ n := by
  unfold allowance
  split
  · omega
  · omega

theorem PacedStream.delivers : ByteSource.Delivers PacedStream.stream where
  size s := rfl
  position s := rfl
  seek s p := rfl
  read := by
    intro s n hn
    cases hwaits : s.waits with
    | zero =>
      obtain ⟨hpos, hle⟩ := (s.pace s.turn).allowance_bounds hn
      refine Or.inr ⟨(s.pace s.turn).allowance n, (s.read n).2, hpos, hle, ?_, ?_⟩
      · simp only [ByteSource.read, read, hwaits]
      · simp only [ByteSource.read, read, hwaits]
    | succ waits =>
      refine Or.inl ⟨{ s with waits }, ?_, rfl⟩
      simp only [ByteSource.read, read, hwaits]

end KalayRecord
