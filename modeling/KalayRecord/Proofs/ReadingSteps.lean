import KalayRecord.MeasuredReader
import KalayRecord.MemoryStream

namespace KalayRecord

namespace Reading

variable {σ α β : Type}

theorem throw_bind (e : Error) (f : α → Reading σ β) : (throw e >>= f : Reading σ β) = throw e :=
  rfl

theorem bind_of_ok {m : Reading σ α} {f : α → Reading σ β} {r r' : MeasuredReader σ} {a : α}
    (h : m r = .ok a r') : (m >>= f) r = f a r' := by
  change EStateM.bind m f r = _
  simp only [EStateM.bind, h]

theorem bind_of_error {m : Reading σ α} {f : α → Reading σ β} {r r' : MeasuredReader σ} {e : Error}
    (h : m r = .error e r') : (m >>= f) r = .error e r' := by
  change EStateM.bind m f r = _
  simp only [EStateM.bind, h]

theorem bind_eq_ok {m : Reading σ α} {f : α → Reading σ β} {r r'' : MeasuredReader σ} {b : β} :
    (m >>= f) r = .ok b r'' ↔ ∃ a r', m r = .ok a r' ∧ f a r' = .ok b r'' := by
  cases h : m r with
  | ok a r' =>
    rw [bind_of_ok h]
    constructor
    · intro hf
      exact ⟨a, r', rfl, hf⟩
    · rintro ⟨_, _, hm, hf⟩
      cases hm
      exact hf
  | error e r' => simp [bind_of_error h]

theorem pure_eq_ok {a b : α} {r r' : MeasuredReader σ} :
    (pure a : Reading σ α) r = .ok b r' ↔ a = b ∧ r = r' := by
  change EStateM.Result.ok a r = _ ↔ _
  simp

theorem throw_ne_ok {e : Error} {r r' : MeasuredReader σ} {a : α} :
    (throw e : Reading σ α) r ≠ .ok a r' := nofun

theorem check_eq_ok {c : Prop} [Decidable c] {e : Error} {m : Reading σ α}
    {r r' : MeasuredReader σ} {a : α} :
    (if c then throw e else m) r = .ok a r' ↔ ¬c ∧ m r = .ok a r' := by
  by_cases h : c <;> simp [h, throw_ne_ok]

/-- The reader that a step leaves behind. -/
def after (m : Reading σ α) (r : MeasuredReader σ) : MeasuredReader σ :=
  match m r with
  | .ok _ r' => r'
  | .error _ r' => r'

theorem after_of_ok {m : Reading σ α} {r r' : MeasuredReader σ} {a : α} (h : m r = .ok a r') :
    after m r = r' := by simp [after, h]

theorem after_of_error {m : Reading σ α} {r r' : MeasuredReader σ} {e : Error}
    (h : m r = .error e r') : after m r = r' := by simp [after, h]

section Source

variable [ByteSource σ]

theorem position_apply (r : MeasuredReader σ) : position r = .ok r.position r := rfl

theorem remaining_apply (r : MeasuredReader σ) : remaining r = .ok r.remaining r := rfl

theorem seek_apply (p : Nat) (r : MeasuredReader σ) :
    seek p r = .ok () { r with source := ByteSource.seek r.source p } := rfl

end Source

end Reading

namespace ByteSource

variable {σ : Type} [ByteSource σ]

theorem gather_zero (s : σ) : gather s 0 = (.ok [], s) := by
  rw [gather, if_pos rfl]

theorem gather_of_attempt_error {s s' : σ} {n : Nat} {reason : String} (hn : n ≠ 0)
    (h : attempt s n = (.error reason, s')) : gather s n = (.error reason, s') := by
  rw [gather, if_neg hn, h]

theorem gather_of_attempt_end {s s' : σ} {n : Nat} (hn : n ≠ 0)
    (h : attempt s n = (.ok [], s')) : gather s n = (.ok [], s') := by
  rw [gather, if_neg hn, h]

theorem gather_of_attempt_bytes {s s' : σ} {n : Nat} {chunk : Bytes} (hn : n ≠ 0) (hc : chunk ≠ [])
    (h : attempt s n = (.ok chunk, s')) :
    gather s n = ((gather s' (n - chunk.length)).1.map (chunk ++ ·),
      (gather s' (n - chunk.length)).2) := by
  rw [gather, if_neg hn, h]
  cases chunk with
  | nil => exact absurd rfl hc
  | cons b chunk => rfl

theorem gather_of_failed {s s' : σ} {n : Nat} {reason : String} (hn : n ≠ 0)
    (h : read s n = (.failed reason, s')) : gather s n = (.error reason, s') :=
  gather_of_attempt_error hn (attempt_of_failed h)

theorem gather_of_end {s s' : σ} {n : Nat} (hn : n ≠ 0) (h : read s n = (.bytes [], s')) :
    gather s n = (.ok [], s') :=
  gather_of_attempt_end hn (attempt_of_bytes h)

theorem gather_of_bytes {s s' : σ} {n : Nat} {chunk : Bytes} (hn : n ≠ 0) (hc : chunk ≠ [])
    (h : read s n = (.bytes chunk, s')) :
    gather s n = ((gather s' (n - chunk.length)).1.map (chunk ++ ·),
      (gather s' (n - chunk.length)).2) :=
  gather_of_attempt_bytes hn hc (attempt_of_bytes h)

end ByteSource

namespace MemoryStream

@[simp] theorem source_size (s : MemoryStream) : ByteSource.size s = s.size := rfl

theorem slice_append_slice (s : MemoryStream) (p : Nat) {k n : Nat} (h : k ≤ n) :
    s.slice p k ++ s.slice (p + k) (n - k) = s.slice p n := by
  rw [slice_eq, slice_eq, slice_eq, ← List.drop_drop, ← List.take_add, Nat.add_sub_of_le h]

theorem slice_cases (s : MemoryStream) {m : Nat} (hm : m ≠ 0) :
    (s.slice s.position m = [] ∧ s.bytes.length ≤ s.position) ∨
      ∃ k, 0 < k ∧ k ≤ m ∧ (s.slice s.position k).length = k ∧
        s.slice s.position m = s.slice s.position k := by
  by_cases hend : s.bytes.length ≤ s.position
  · exact Or.inl ⟨s.slice_of_length_le hend m, hend⟩
  · refine Or.inr ⟨min m (s.bytes.length - s.position), by omega, by omega, ?_, ?_⟩
    · rw [slice_length]
      omega
    · rw [slice_eq, slice_eq, ← List.take_take, ← List.length_drop, List.take_length]

/-- A read call fails and stays, or finds that the contents have ended, or delivers some of the
bytes from the cursor on and moves past them. -/
theorem read_cases (s : MemoryStream) {n : Nat} (hn : n ≠ 0) :
    (∃ reason, ByteSource.read s n = (.failed reason, s)) ∨
      (ByteSource.read s n = (.bytes [], s) ∧ s.bytes.length ≤ s.position) ∨
      ∃ k, 0 < k ∧ k ≤ n ∧ (s.slice s.position k).length = k ∧
        ByteSource.read s n =
          (.bytes (s.slice s.position k), { s with position := s.position + k }) := by
  have hdeliver {m : Nat} (hm : m ≠ 0) (hmn : m ≤ n)
      (h : s.read n = (.bytes (s.slice s.position m),
        { s with position := s.position + (s.slice s.position m).length })) :
      (s.read n = (.bytes [], s) ∧ s.bytes.length ≤ s.position) ∨
        ∃ k, 0 < k ∧ k ≤ n ∧ (s.slice s.position k).length = k ∧
          s.read n = (.bytes (s.slice s.position k), { s with position := s.position + k }) := by
    rcases s.slice_cases hm with ⟨hnil, hend⟩ | ⟨k, hk, hkm, hlen, hslice⟩
    · rw [hnil] at h
      exact Or.inl ⟨h, hend⟩
    · rw [hslice, hlen] at h
      exact Or.inr ⟨k, hk, Nat.le_trans hkm hmn, hlen, h⟩
  obtain ⟨failAt, hlimit⟩ : ∃ failAt, s.failAt = failAt := ⟨_, rfl⟩
  cases failAt with
  | none => exact Or.inr (hdeliver hn (Nat.le_refl n) (by simp [read, hlimit]))
  | some limit =>
    by_cases hpast : limit ≤ s.position
    · exact Or.inl ⟨unreadable, by simp [ByteSource.read, read, hlimit, hpast]⟩
    · exact Or.inr (hdeliver (by omega) (Nat.min_le_left n (limit - s.position))
        (by simp [read, hlimit, hpast]))

theorem gather_of_ok {s s' : MemoryStream} {n : Nat} {bytes : Bytes}
    (h : ByteSource.gather s n = (.ok bytes, s')) :
    bytes = s.slice s.position n ∧ s' = { s with position := s.position + bytes.length } := by
  -- on what is still asked for, which each delivery lessens
  induction n using Nat.strongRecOn generalizing s bytes with
  | ind n ih =>
    by_cases hn : n = 0
    · subst hn
      rw [ByteSource.gather_zero, Prod.mk.injEq, Except.ok.injEq] at h
      obtain ⟨rfl, rfl⟩ := h
      simp [slice_eq]
    rcases s.read_cases hn with ⟨reason, hr⟩ | ⟨hr, hend⟩ | ⟨k, hk, hkn, hlen, hr⟩
    · rw [ByteSource.gather_of_failed hn hr] at h
      simp at h
    · rw [ByteSource.gather_of_end hn hr, Prod.mk.injEq, Except.ok.injEq] at h
      obtain ⟨rfl, rfl⟩ := h
      exact ⟨(s.slice_of_length_le hend n).symm, rfl⟩
    · have hne : s.slice s.position k ≠ [] := List.ne_nil_of_length_pos (by rw [hlen]; exact hk)
      rw [ByteSource.gather_of_bytes hn hne hr, hlen] at h
      obtain ⟨⟨result, t⟩, hrest⟩ :
        ∃ rest, ByteSource.gather { s with position := s.position + k } (n - k) = rest := ⟨_, rfl⟩
      rw [hrest] at h
      cases result with
      | error reason => simp [Except.map] at h
      | ok rest =>
        simp only [Except.map, Prod.mk.injEq, Except.ok.injEq] at h
        obtain ⟨rfl, rfl⟩ := h
        obtain ⟨rfl, rfl⟩ := ih (n - k) (by omega) hrest
        constructor
        · exact s.slice_append_slice s.position hkn
        · simp only [List.length_append, hlen, Nat.add_assoc]

/-- Gathering moves the cursor alone, also where it fails. -/
theorem gather_moves (s : MemoryStream) (n : Nat) :
    ∃ p, (ByteSource.gather s n).2 = { s with position := p } := by
  induction n using Nat.strongRecOn generalizing s with
  | ind n ih =>
    by_cases hn : n = 0
    · exact ⟨s.position, by rw [hn, ByteSource.gather_zero]⟩
    rcases s.read_cases hn with ⟨reason, hr⟩ | ⟨hr, -⟩ | ⟨k, hk, -, hlen, hr⟩
    · exact ⟨s.position, by rw [ByteSource.gather_of_failed hn hr]⟩
    · exact ⟨s.position, by rw [ByteSource.gather_of_end hn hr]⟩
    · have hne : s.slice s.position k ≠ [] := List.ne_nil_of_length_pos (by rw [hlen]; exact hk)
      rw [ByteSource.gather_of_bytes hn hne hr, hlen]
      exact ih (n - k) (by omega) { s with position := s.position + k }

end MemoryStream

namespace MeasuredReader

/-- The reader with its cursor at `p`. -/
def moveTo (r : MeasuredReader MemoryStream) (p : Nat) : MeasuredReader MemoryStream :=
  { r with source := { r.source with position := p } }

@[simp] theorem position_moveTo (r : MeasuredReader MemoryStream) (p : Nat) :
    (r.moveTo p).position = p := rfl

@[simp] theorem moveTo_moveTo (r : MeasuredReader MemoryStream) (p q : Nat) :
    (r.moveTo p).moveTo q = r.moveTo q := rfl

@[simp] theorem bytes_moveTo (r : MeasuredReader MemoryStream) (p : Nat) :
    (r.moveTo p).source.bytes = r.source.bytes := rfl

end MeasuredReader

namespace Reading

variable {α β : Type}

/-- Whatever comes of the step, it leaves the reader as it was but for the cursor. -/
def MovesOnly (m : Reading MemoryStream α) : Prop := ∀ r, ∃ p, after m r = r.moveTo p

namespace MovesOnly

theorem pure (a : α) : MovesOnly (pure a : Reading MemoryStream α) := fun r => ⟨r.position, rfl⟩

theorem throw (e : Error) : MovesOnly (throw e : Reading MemoryStream α) :=
  fun r => ⟨r.position, rfl⟩

theorem bind {m : Reading MemoryStream α} {f : α → Reading MemoryStream β} (hm : MovesOnly m)
    (hf : ∀ a, MovesOnly (f a)) : MovesOnly (m >>= f) := by
  intro r
  obtain ⟨p, hp⟩ := hm r
  cases h : m r with
  | ok a r' =>
    obtain ⟨q, hq⟩ := hf a r'
    rw [after_of_ok h] at hp
    refine ⟨q, ?_⟩
    rw [after, bind_of_ok h, ← r.moveTo_moveTo p q, ← hp]
    exact hq
  | error e r' =>
    rw [after_of_error h] at hp
    exact ⟨p, (after_of_error (bind_of_error h)).trans hp⟩

theorem position : MovesOnly Reading.position := fun r => ⟨r.position, rfl⟩

theorem remaining : MovesOnly Reading.remaining := fun r => ⟨r.position, rfl⟩

theorem seek (p : Nat) : MovesOnly (Reading.seek p) := fun _ => ⟨p, rfl⟩

theorem upTo (n : Nat) : MovesOnly (Reading.upTo n) := by
  intro r
  obtain ⟨p, hp⟩ := r.source.gather_moves n
  refine ⟨p, ?_⟩
  unfold after Reading.upTo
  cases h : ByteSource.gather r.source n with
  | mk result s =>
    rw [h] at hp
    cases result <;> simp [MeasuredReader.moveTo, ← hp]

end MovesOnly

end Reading

end KalayRecord
