import KalayRecord.Proofs.FixedWidth
import KalayRecord.Proofs.FrameJoin
import KalayRecord.Proofs.ShortReads
import KalayRecord.Proofs.WordCodes

namespace KalayRecord

open Reading

namespace MemoryStream

theorem delivers : ByteSource.Delivers (id : MemoryStream → MemoryStream) where
  size _ := rfl
  position _ := rfl
  seek _ _ := rfl
  read _ n hn := Or.inr ⟨n, _, Nat.pos_of_ne_zero hn, Nat.le_refl n, rfl, rfl⟩

theorem gather_position_le (s : MemoryStream) (n : Nat) :
    (ByteSource.gather s n).2.position ≤ s.position + n := by
  induction n using Nat.strongRecOn generalizing s with
  | ind n ih =>
    by_cases hn : n = 0
    · rw [hn, ByteSource.gather_zero]
      exact Nat.le_refl _
    rcases s.read_cases hn with ⟨reason, hr⟩ | ⟨hr, -⟩ | ⟨k, hk, hkn, hlen, hr⟩
    · rw [ByteSource.gather_of_failed hn hr]
      exact Nat.le_add_right _ _
    · rw [ByteSource.gather_of_end hn hr]
      exact Nat.le_add_right _ _
    · have hne : s.slice s.position k ≠ [] := List.ne_nil_of_length_pos (by rw [hlen]; exact hk)
      rw [ByteSource.gather_of_bytes hn hne hr, hlen]
      have hrest := ih (n - k) (by omega) { s with position := s.position + k }
      dsimp only at hrest ⊢
      omega

end MemoryStream

section Source

variable {σ : Type} [ByteSource σ] {view : σ → MemoryStream}

namespace ByteSource.Delivers

theorem position_seek (h : Delivers view) (s : σ) (p : Nat) :
    ByteSource.position (ByteSource.seek s p) = p := by
  rw [h.position, h.seek]
  rfl

theorem length_attempt_le (h : Delivers view) {s s' : σ} {n : Nat} (hn : n ≠ 0) {chunk : Bytes}
    (hattempt : ByteSource.attempt s n = (.ok chunk, s')) : chunk.length ≤ n := by
  obtain ⟨k, s'', hk, hkn, hcall, -⟩ := h.attempt s hn
  rw [hattempt] at hcall
  rcases (view s).read_cases (Nat.ne_of_gt hk) with ⟨reason, hr⟩ | ⟨hr, -⟩ | ⟨j, -, hjk, hlen, hr⟩
  · rw [attempt_of_failed hr] at hcall
    cases hcall
  · rw [attempt_of_bytes hr] at hcall
    cases hcall
    exact Nat.zero_le n
  · rw [attempt_of_bytes hr] at hcall
    cases hcall
    omega

theorem gather_position_le (h : Delivers view) (s : σ) (n : Nat) :
    ByteSource.position (ByteSource.gather s n).2 ≤ ByteSource.position s + n := by
  have hle := (view s).gather_position_le n
  rw [h.gather] at hle
  rw [h.position, h.position]
  exact hle

theorem gather_of_ok (h : Delivers view) {s s' : σ} {n : Nat} {bytes : Bytes}
    (hgather : ByteSource.gather s n = (.ok bytes, s')) :
    bytes.length ≤ n ∧ ByteSource.position s' = ByteSource.position s + bytes.length := by
  have hview := h.gather s n
  rw [hgather] at hview
  obtain ⟨hbytes, hs'⟩ := MemoryStream.gather_of_ok hview
  constructor
  · rw [hbytes, MemoryStream.slice_length]
    exact Nat.min_le_left _ _
  · rw [h.position, h.position, hs']

end ByteSource.Delivers

/-- The length and the place of the cursor are numbers of 64 bits. -/
structure MeasuredReader.Fits (r : MeasuredReader σ) : Prop where
  length_lt : r.length < 2 ^ 64
  position_lt : r.position < 2 ^ 64

end Source

theorem TrackRecord.occupiedSize_eq_sum (t : TrackRecord) :
    t.occupiedSize = headerSize + IndexTable.expectedSize (.ofNat t.timestamps.items.length) +
      t.keyframes.elim 0 (fun table => IndexTable.expectedSize (.ofNat table.items.length)) +
      IndexTable.expectedSize (.ofNat t.sizes.items.length) +
      IndexTable.expectedSize (.ofNat t.offsets.items.length) := by
  unfold occupiedSize tables
  cases t.keyframes <;> simp <;> omega

/-- Each frame has the number of its place. -/
def FrameIndex.Numbered (x : FrameIndex) : Prop :=
  ∀ (i : Nat) (f : Frame), x.frames[i]? = some f → f.number.toNat = i

namespace FixedWidth

section Checks

theorem word_of_lt {n : Nat} (h : n < 2 ^ 64) : word n = some n := if_pos h

theorem narrow_of_lt {n : Nat} (h : n < 2 ^ 32) : narrow n = some (.ofNat n) := if_pos h

theorem narrowTo_toNat (count : UInt32) : narrowTo count count.toNat = some count := by
  rw [narrowTo, narrow_of_lt count.toNat_lt, UInt32.ofNat_toNat]
  exact if_pos rfl

theorem difference_of_le {a b : Nat} (h : b ≤ a) : difference a b = some (a - b) := if_pos h

theorem timeSpan_bounds (first last : UInt32) :
    -2 ^ 32 < (last.toNat : Int) - first.toNat ∧ (last.toNat : Int) - first.toNat < 2 ^ 32 := by
  have hfirst := first.toNat_lt
  have hlast := last.toNat_lt
  omega

theorem timeSpan_eq (first last : UInt32) :
    timeSpan first last = some ((last.toNat : Int) - first.toNat) :=
  if_pos (timeSpan_bounds first last)

theorem expectedSize_lt (count : UInt32) : IndexTable.expectedSize count < 2 ^ 35 := by
  have hcount := count.toNat_lt
  have hheader : IndexTable.headerSize = 12 := rfl
  unfold IndexTable.expectedSize
  omega

theorem expectedSize_eq (count : UInt32) :
    expectedSize count = some (IndexTable.expectedSize count) := by
  have hcount := count.toNat_lt
  have hsize := expectedSize_lt count
  rw [expectedSize, word_of_lt (by omega)]
  exact word_of_lt (Nat.lt_trans hsize (by decide))

end Checks

section Joins

theorem mapM_range' {α : Type} {f : Nat → Option α} {xs : List α} (start : Nat)
    (h : ∀ i (hi : i < xs.length), f (start + i) = some xs[i]) :
    (List.range' start xs.length).mapM f = some xs := by
  induction xs generalizing start with
  | nil => rfl
  | cons x xs ih =>
    have hfirst := h 0 (Nat.zero_lt_succ _)
    have hrest := ih (start + 1) fun i hi => by
      rw [Nat.add_assoc, Nat.add_comm 1 i]
      exact h (i + 1) (Nat.succ_lt_succ hi)
    rw [List.length_cons, List.range'_succ, List.mapM_cons, hrest]
    rw [Nat.add_zero] at hfirst
    rw [hfirst]
    rfl

theorem frameAt_of_frame? {t : FrameTables} {i : Nat} {f : Frame} (hi : i < 2 ^ 32)
    (h : t.frame? i = some f) : frameAt t i = some f := by
  unfold FrameTables.frame? at h
  split at h
  next timestamp size offset htimestamp hsize hoffset =>
    cases h
    unfold frameAt
    rw [hoffset, htimestamp, hsize, narrow_of_lt hi]
    rfl
  next => cases h

/-- Places below the length of the shortest table are places of all three. -/
theorem join_eq {t : FrameTables} (h : t.timestamps.length ≤ 2 ^ 32) : join t = some t.build := by
  have hsize := t.size_build
  rw [FrameIndex.size, ← Array.length_toList] at hsize
  have hframes : (List.range t.build.frames.toList.length).mapM (frameAt t) =
      some t.build.frames.toList := by
    rw [List.range_eq_range']
    apply mapM_range'
    intro i hi
    rw [Nat.zero_add]
    apply frameAt_of_frame? (by omega)
    rw [← t.build_getElem?, Array.getElem?_eq_getElem (by simpa using hi), Array.getElem_toList]
  unfold join
  rw [← hsize]
  simp only [hframes]
  rfl

theorem numbered_build {t : FrameTables} (h : t.timestamps.length ≤ 2 ^ 32) :
    t.build.Numbered := by
  intro i f hf
  have hsize : t.build.size ≤ t.timestamps.length := by
    rw [t.size_build]
    exact Nat.min_le_left _ _
  exact FrameTables.toNat_number_of_build_getElem? (Nat.le_trans hsize h) hf

end Joins

section Steps

variable {σ α β γ δ : Type}

theorem throw_bind (e : Error) (f : α → FixedReading σ β) :
    (throw e >>= f : FixedReading σ β) = throw e := rfl

theorem bind_of_ok {g : FixedReading σ α} {f : α → FixedReading σ β} {r r' : MeasuredReader σ}
    {a : α} (h : g r = some (.ok a, r')) : (g >>= f) r = f a r' := by
  change (StateT.bind g (ExceptT.bindCont f)) r = _
  simp only [StateT.bind, h]
  rfl

theorem bind_of_error {g : FixedReading σ α} {f : α → FixedReading σ β} {r r' : MeasuredReader σ}
    {e : Error} (h : g r = some (.error e, r')) : (g >>= f) r = some (.error e, r') := by
  change (StateT.bind g (ExceptT.bindCont f)) r = _
  simp only [StateT.bind, h]
  rfl

variable [ByteSource σ]

/-- The step leaves a reader of fixed width, and what it yields has the property. -/
def Leaves (m : Reading σ α) (r : MeasuredReader σ) (Q : α → MeasuredReader σ → Prop) : Prop :=
  match m r with
  | .ok a r' => r'.Fits ∧ Q a r'
  | .error _ r' => r'.Fits

/-- With numbers of fixed width the first step fails as the second does, or yields what is related
to what the second yields; both leave the same reader, and its numbers have fixed width. -/
def Exact (g : FixedReading σ β) (m : Reading σ α) (r : MeasuredReader σ)
    (R : β → α → MeasuredReader σ → Prop) : Prop :=
  match m r with
  | .ok a r' => r'.Fits ∧ ∃ b, g r = some (.ok b, r') ∧ R b a r'
  | .error e r' => r'.Fits ∧ g r = some (.error e, r')

variable {r : MeasuredReader σ} {m : Reading σ α} {Q : α → MeasuredReader σ → Prop}

namespace Leaves

theorem pure {a : α} (hr : r.Fits) (ha : Q a r) : Leaves (pure a) r Q := ⟨hr, ha⟩

theorem throw {e : Error} (hr : r.Fits) : Leaves (throw e : Reading σ α) r Q := hr

theorem bind {k : α → Reading σ β} {Q' : β → MeasuredReader σ → Prop} (hm : Leaves m r Q)
    (hk : ∀ a r', r'.Fits → Q a r' → Leaves (k a) r' Q') : Leaves (m >>= k) r Q' := by
  unfold Leaves at hm ⊢
  cases h : m r with
  | ok a r' =>
    rw [h] at hm
    rw [Reading.bind_of_ok h]
    exact hk a r' hm.1 hm.2
  | error e r' =>
    rw [h] at hm
    rw [Reading.bind_of_error h]
    exact hm

theorem position (hr : r.Fits) :
    Leaves Reading.position r fun p r' => p = r.position ∧ r = r' := ⟨hr, rfl, rfl⟩

theorem remaining (hr : r.Fits) :
    Leaves Reading.remaining r fun n r' => n = r.remaining ∧ r = r' := ⟨hr, rfl, rfl⟩

end Leaves

namespace Exact

variable {R : β → α → MeasuredReader σ → Prop} {g : FixedReading σ β}

theorem pure {a : α} {b : β} (hr : r.Fits) (h : R b a r) : Exact (pure b) (pure a) r R :=
  ⟨hr, b, rfl, h⟩

theorem throw {e : Error} (hr : r.Fits) : Exact (throw e) (throw e) r R := ⟨hr, rfl⟩

theorem ite {c : Prop} [Decidable c] {g' : FixedReading σ β} {m' : Reading σ α}
    (h : c → Exact g m r R) (h' : ¬c → Exact g' m' r R) :
    Exact (if c then g else g') (if c then m else m') r R := by
  by_cases hc : c
  · rw [if_pos hc, if_pos hc]
    exact h hc
  · rw [if_neg hc, if_neg hc]
    exact h' hc

theorem mono {R' : β → α → MeasuredReader σ → Prop} (hm : Exact g m r R)
    (himp : ∀ b a r', R b a r' → R' b a r') : Exact g m r R' := by
  unfold Exact at hm ⊢
  cases h : m r with
  | ok a r' =>
    rw [h] at hm
    obtain ⟨hr', b, hg, hb⟩ := hm
    exact ⟨hr', b, hg, himp b a r' hb⟩
  | error e r' =>
    rw [h] at hm
    exact hm

theorem bind {f : β → FixedReading σ δ} {k : α → Reading σ γ}
    {R' : δ → γ → MeasuredReader σ → Prop} (hm : Exact g m r R)
    (hk : ∀ b a r', r'.Fits → R b a r' → Exact (f b) (k a) r' R') :
    Exact (g >>= f) (m >>= k) r R' := by
  unfold Exact at hm ⊢
  cases h : m r with
  | ok a r' =>
    rw [h] at hm
    obtain ⟨hr', b, hg, hb⟩ := hm
    rw [Reading.bind_of_ok h, FixedWidth.bind_of_ok hg]
    exact hk b a r' hr' hb
  | error e r' =>
    rw [h] at hm
    rw [Reading.bind_of_error h, FixedWidth.bind_of_error hm.2]
    exact ⟨hm.1, rfl⟩

/-- A step that computes no number is the same with fixed width. -/
theorem lift (hm : Leaves m r Q) : Exact (lift m) m r fun b a r' => b = a ∧ Q a r' := by
  unfold Leaves at hm
  unfold Exact FixedWidth.lift outcome
  cases h : m r with
  | ok a r' =>
    rw [h] at hm
    exact ⟨hm.1, a, rfl, rfl, hm.2⟩
  | error e r' =>
    rw [h] at hm
    exact ⟨hm, rfl⟩

theorem step {f : α → FixedReading σ δ} {k : α → Reading σ γ} {R' : δ → γ → MeasuredReader σ → Prop}
    (hm : Leaves m r Q) (hk : ∀ a r', r'.Fits → Q a r' → Exact (f a) (k a) r' R') :
    Exact (FixedWidth.lift m >>= f) (m >>= k) r R' := by
  apply (lift hm).bind
  rintro b a r' hr' ⟨rfl, hQ⟩
  exact hk b r' hr' hQ

/-- A number that passes its check is the number that is used. -/
theorem check {c : Option γ} {a : γ} {f : γ → FixedReading σ β} (hc : c = some a)
    (h : Exact (f a) m r R) : Exact ((c : FixedReading σ γ) >>= f) m r R := by
  subst hc
  exact h

end Exact

end Steps

section Reading

variable {σ : Type} [ByteSource σ] {view : σ → MemoryStream} {r : MeasuredReader σ}

theorem skip_eq (n : Nat) (field : String) :
    Reading.skip n field = (do
      let position ← Reading.position
      let available ← Reading.remaining
      if available < n then throw (.truncatedInput field n available)
      else Reading.seek (position + n) : Reading σ Unit) := by
  funext r
  simp only [Reading.skip, Reading.throw_bind]
  rw [Reading.bind_of_ok (remaining_apply r), Reading.bind_of_ok (position_apply r),
    Reading.bind_of_ok (remaining_apply r)]
  split
  · rfl
  · rw [Reading.bind_of_ok (position_apply r)]

theorem gather_eq (h : ByteSource.Delivers view) (s : σ) {size : Nat} (filled : Nat)
    (hsize : size < 2 ^ 64) :
    gather s size filled = some (ByteSource.gather s (size - filled)) := by
  -- on what the buffer still has room for
  induction hn : size - filled using Nat.strongRecOn generalizing s filled with
  | ind n ih =>
    rw [gather]
    by_cases hfull : size ≤ filled
    · have hzero : n = 0 := by omega
      rw [if_pos hfull, hzero, ByteSource.gather_zero]
    have hpos : n ≠ 0 := by omega
    rw [if_neg hfull, hn]
    cases hattempt : ByteSource.attempt s n with
    | mk result s' =>
      cases result with
      | error reason => rw [ByteSource.gather_of_attempt_error hpos hattempt]
      | ok chunk =>
        cases chunk with
        | nil => rw [ByteSource.gather_of_attempt_end hpos hattempt]
        | cons b chunk =>
          have hlength := h.length_attempt_le hpos hattempt
          rw [List.length_cons] at hlength
          have hrest := ih (n - (chunk.length + 1)) (by omega) s' (filled + (chunk.length + 1))
            (by omega)
          rw [ByteSource.gather_of_attempt_bytes hpos (List.cons_ne_nil b chunk) hattempt,
            List.length_cons]
          dsimp only
          rw [if_pos (by omega), hrest]
          rfl

namespace Leaves

variable (h : ByteSource.Delivers view) (hr : r.Fits)

include h hr

theorem seek {p : Nat} (hp : p < 2 ^ 64) :
    Leaves (Reading.seek p) r fun _ r' => r'.position = p ∧ r'.length = r.length := by
  have hposition := h.position_seek r.source p
  refine ⟨⟨hr.length_lt, ?_⟩, hposition, rfl⟩
  exact Nat.lt_of_le_of_lt (Nat.le_of_eq hposition) hp

theorem upTo {n : Nat} (hn : r.position + n < 2 ^ 64) :
    Leaves (Reading.upTo n) r fun bytes r' =>
      bytes.length ≤ n ∧ r'.position = r.position + bytes.length := by
  have hle := h.gather_position_le r.source n
  unfold Leaves Reading.upTo
  cases hgather : ByteSource.gather r.source n with
  | mk result source =>
    rw [hgather] at hle
    have hfits : MeasuredReader.Fits { r with source } := by
      constructor
      · exact hr.length_lt
      · exact Nat.lt_of_le_of_lt hle hn
    cases result with
    | error reason => exact hfits
    | ok bytes => exact ⟨hfits, h.gather_of_ok hgather⟩

theorem exactly (n : Nat) (field : String) :
    Leaves (Reading.exactly n field) r fun bytes _ => bytes.length = n := by
  have hlength := hr.length_lt
  simp only [Reading.exactly, Reading.throw_bind]
  apply (remaining hr).bind
  rintro _ _ - ⟨rfl, rfl⟩
  split
  · exact throw hr
  next hn =>
    unfold MeasuredReader.remaining at hn
    have hposition := hr.position_lt
    apply (upTo h hr (by omega)).bind
    rintro bytes r' hr' ⟨hbytes, -⟩
    split
    · exact throw hr'
    next hshort => exact pure hr' (by omega)

theorem uint8 (field : String) : Leaves (Reading.uint8 field) r fun _ _ => True :=
  (exactly h hr 1 field).bind fun _ _ hr' _ => pure hr' trivial

theorem uint16 (field : String) : Leaves (Reading.uint16 field) r fun _ _ => True :=
  (exactly h hr 2 field).bind fun _ _ hr' _ => pure hr' trivial

theorem uint32 (field : String) : Leaves (Reading.uint32 field) r fun _ _ => True :=
  (exactly h hr 4 field).bind fun _ _ hr' _ => pure hr' trivial

theorem uint64 (field : String) : Leaves (Reading.uint64 field) r fun _ _ => True :=
  (exactly h hr 8 field).bind fun _ _ hr' _ => pure hr' trivial

theorem uint32BigEndian (field : String) :
    Leaves (Reading.uint32BigEndian field) r fun _ _ => True :=
  (exactly h hr 4 field).bind fun _ _ hr' _ => pure hr' trivial

theorem header : Leaves RecordingHeader.read r fun _ _ => True := by
  simp only [RecordingHeader.read, Reading.throw_bind]
  refine (exactly h hr _ _).bind fun found _ hr _ => ?_
  split
  · exact throw hr
  · exact (uint32 h hr _).bind fun _ _ hr _ => (uint32BigEndian h hr _).bind fun _ _ hr _ =>
      (uint32 h hr _).bind fun _ _ hr _ => (uint32BigEndian h hr _).bind fun _ _ hr _ =>
      (exactly h hr _ _).bind fun _ _ hr _ => (uint32 h hr _).bind fun _ _ hr _ =>
      (uint64 h hr _).bind fun _ _ hr _ => (uint8 h hr _).bind fun _ _ hr _ => pure hr trivial

end Leaves

namespace Exact

variable (h : ByteSource.Delivers view) (hr : r.Fits)

include h hr

theorem skip (n : Nat) (field : String) :
    Exact (FixedWidth.skip n field) (Reading.skip n field) r fun _ _ _ => True := by
  have hlength := hr.length_lt
  have hposition := hr.position_lt
  rw [skip_eq]
  simp only [FixedWidth.skip, FixedWidth.throw_bind]
  apply step (Leaves.position hr)
  rintro _ _ - ⟨rfl, rfl⟩
  apply step (Leaves.remaining hr)
  rintro _ _ - ⟨rfl, rfl⟩
  apply ite
  · intro _
    exact throw hr
  · intro hn
    unfold MeasuredReader.remaining at hn
    have hn' : r.position + n < 2 ^ 64 := by omega
    apply check (word_of_lt hn')
    exact (lift (Leaves.seek h hr hn')).mono fun _ _ _ _ => trivial

theorem upTo {n : Nat} (hn : r.position + n < 2 ^ 64) :
    Exact (FixedWidth.upTo n) (Reading.upTo n) r fun b a r' =>
      b = a ∧ a.length ≤ n ∧ r'.position = r.position + a.length := by
  have hleaves := Leaves.upTo h hr hn
  have hgather := gather_eq h r.source 0 (show n < 2 ^ 64 by omega)
  unfold Leaves Reading.upTo at hleaves
  unfold Exact FixedWidth.upTo Reading.upTo
  rw [hgather, Nat.sub_zero]
  cases hresult : ByteSource.gather r.source n with
  | mk result source =>
    rw [hresult] at hleaves
    cases result with
    | error reason => exact ⟨hleaves, rfl⟩
    | ok bytes =>
      obtain ⟨hfits, hlength, hposition⟩ := hleaves
      dsimp only
      rw [if_pos hlength]
      exact ⟨hfits, bytes, rfl, rfl, hlength, hposition⟩

theorem table (checkSize : Bool) :
    Exact (readTable checkSize) (IndexTable.read checkSize) r fun b a _ =>
      b.2 = a ∧ a.items.length = b.1.toNat := by
  simp only [readTable, IndexTable.read, FixedWidth.throw_bind, Reading.throw_bind]
  refine step (Leaves.uint32 h hr _) fun size _ hr _ =>
    step (Leaves.uint32 h hr _) fun type _ hr _ =>
    step (Leaves.uint32 h hr _) fun count _ hr _ => ?_
  have hcount := count.toNat_lt
  apply check (word_of_lt (by omega))
  apply step (Leaves.remaining hr)
  rintro available _ - ⟨-, rfl⟩
  apply ite
  · intro _
    exact throw hr
  intro _
  apply check (expectedSize_eq count)
  apply ite
  · intro _
    exact throw hr
  intro _
  apply step (Leaves.exactly h hr _ _)
  intro items _ hr hitems
  exact pure hr ⟨rfl, (ofWords_words hitems).2⟩

theorem nextTable (checkSize : Bool) {parsed : Nat} (hparsed : parsed < 2 ^ 40) :
    Exact (FixedWidth.nextTable checkSize parsed) (IndexTable.read checkSize) r fun b a _ =>
      b = (a, parsed + IndexTable.expectedSize (.ofNat a.items.length)) ∧
        a.items.length < 2 ^ 32 := by
  unfold FixedWidth.nextTable
  rw [← bind_pure (IndexTable.read checkSize)]
  apply (table h hr checkSize).bind
  rintro ⟨count, table⟩ _ _ hr ⟨rfl, hitems⟩
  have hcount := count.toNat_lt
  have hsize := expectedSize_lt count
  dsimp only at hitems ⊢
  rw [hitems]
  apply check (narrowTo_toNat count)
  apply check (expectedSize_eq count)
  apply check (word_of_lt (show parsed + IndexTable.expectedSize count < 2 ^ 64 by omega))
  apply pure hr
  rw [hitems, UInt32.ofNat_toNat]
  exact ⟨rfl, hcount⟩

theorem finishTrack (kind : MediaKind) (checkSizes : Bool)
    {record : (sizes offsets : IndexTable) → TrackRecord} {parsed : Nat} (hparsed : parsed < 2 ^ 39)
    (hoccupied : ∀ sizes offsets, (record sizes offsets).occupiedSize =
      parsed + IndexTable.expectedSize (.ofNat sizes.items.length) +
        IndexTable.expectedSize (.ofNat offsets.items.length))
    (htimestamps : ∀ sizes offsets, (record sizes offsets).timestamps.items.length < 2 ^ 32) :
    Exact (FixedWidth.finishTrack kind checkSizes record parsed)
      (do
        let sizes ← IndexTable.read checkSizes
        let offsets ← IndexTable.read checkSizes
        return record sizes offsets)
      r fun b a _ => b = .ofRecord kind a ∧ b.index.Numbered := by
  unfold FixedWidth.finishTrack
  apply (nextTable h hr checkSizes (by omega)).bind
  rintro _ sizes _ hr ⟨rfl, -⟩
  have hsize := expectedSize_lt (.ofNat sizes.items.length)
  dsimp only
  apply (nextTable h hr checkSizes (by omega)).bind
  rintro _ offsets _ hr ⟨rfl, -⟩
  dsimp only
  have hle := Nat.le_of_lt (htimestamps sizes offsets)
  apply check (join_eq hle)
  apply pure hr
  rw [← hoccupied]
  exact ⟨rfl, numbered_build hle⟩

theorem track (kind : MediaKind) (checkSizes : Bool) :
    Exact (readTrack kind checkSizes) (TrackRecord.read kind checkSizes) r fun b a _ =>
      b = .ofRecord kind a ∧ b.index.Numbered := by
  simp only [readTrack, TrackRecord.read]
  refine step (Leaves.uint32 h hr _) fun size _ hr _ =>
    step (Leaves.uint32 h hr _) fun type _ hr _ =>
    step (Leaves.uint8 h hr _) fun codecByte _ hr _ => step (Leaves.uint8 h hr _) fun flag _ hr _ =>
    step (Leaves.uint16 h hr _) fun id _ hr _ => step (Leaves.uint32 h hr _) fun first _ hr _ =>
    step (Leaves.uint32 h hr _) fun last _ hr _ => ?_
  -- no table takes 2 ^ 35 bytes, so that four of them stay far below 2 ^ 64
  have hheader : TrackRecord.headerSize = 20 := rfl
  apply (nextTable h hr checkSizes (by omega)).bind
  rintro _ timestamps _ hr ⟨rfl, htimestamps⟩
  have hfirst := expectedSize_lt (.ofNat timestamps.items.length)
  cases kind with
  | video =>
    dsimp only
    rw [map_eq_pure_bind, bind_assoc]
    apply (nextTable h hr checkSizes (by omega)).bind
    rintro _ keyframes _ hr ⟨rfl, -⟩
    have hsecond := expectedSize_lt (.ofNat keyframes.items.length)
    dsimp only
    rw [pure_bind]
    exact finishTrack h hr .video checkSizes (by omega)
      (fun _ _ => TrackRecord.occupiedSize_eq_sum _) fun _ _ => htimestamps
  | audio =>
    dsimp only
    rw [pure_bind]
    exact finishTrack h hr .audio checkSizes (by omega)
      (fun _ _ => TrackRecord.occupiedSize_eq_sum _) fun _ _ => htimestamps

end Exact

end Reading

end FixedWidth

end KalayRecord
