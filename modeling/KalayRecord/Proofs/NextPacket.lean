import KalayRecord.Proofs.RecordReading

namespace KalayRecord

open MeasuredReader

theorem FirstMarkerAt.of_take {bytes : Bytes} {m n : Nat} (h : FirstMarkerAt (bytes.take n) m) :
    FirstMarkerAt bytes m ∧ m + 2 ≤ n := by
  obtain ⟨hmarker, hn⟩ := markerAt_take.mp h.1
  refine ⟨⟨hmarker, fun j hj hearlier => ?_⟩, hn⟩
  exact h.2 j hj (markerAt_take.mpr ⟨hearlier, by omega⟩)

theorem MarkerAt.lt_length {bytes : Bytes} {m : Nat} (h : MarkerAt bytes m) : m < bytes.length := by
  have hlength := h.length_le
  rw [List.length_drop, marker] at hlength
  exact Nat.lt_of_sub_pos (Nat.lt_of_lt_of_le Nat.two_pos hlength)

namespace MarkerScan

/-- A search finds the first marker, or comes to the end of its window before that of the region, or
comes to the end of the region or of the bytes. -/
theorem findMarker_cases (b : Bytes) (regionEnd limit : Nat) {p : Nat} (hp : p ≤ b.length) :
    (∃ m, FirstMarkerAt (b.drop p) m ∧ p + m + 2 ≤ regionEnd ∧
      findMarker regionEnd limit (ofBytes b p) = .ok (p + m) (ofBytes b (p + m + 2))) ∨
    (p + limit < regionEnd ∧
      findMarker regionEnd limit (ofBytes b p) =
        .error (.syncNotFound p limit) (ofBytes b (p + limit))) ∨
    ∃ q, p ≤ q ∧ (regionEnd ≤ q ∨ b.length ≤ q) ∧
      findMarker regionEnd limit (ofBytes b p) = .error .endOfStream (ofBytes b q) := by
  cases hi : markerEnd? 0 ((b.drop p).take (min (regionEnd - p) limit)) with
  | some i =>
    obtain ⟨m, rfl, hfirst⟩ := markerEnd?_zero_eq_some.mp hi
    obtain ⟨hmarker, hwindow⟩ := hfirst.of_take
    have hfind : findMarker regionEnd limit (ofBytes b p) = _ :=
      findMarker_of_first hp hmarker (by omega) (by omega)
    exact Or.inl ⟨m, hmarker, by omega, hfind⟩
  | none =>
    have hfind := findMarker_of_unmarked hp (markerEnd?_zero_eq_none.mp hi)
    by_cases hb : p + min (regionEnd - p) limit ≤ b.length
    · rw [if_pos hb] at hfind
      by_cases hregion : regionEnd - p ≤ min (regionEnd - p) limit
      · rw [if_pos hregion] at hfind
        exact Or.inr (Or.inr ⟨_, Nat.le_add_right _ _, Or.inl (by omega), hfind⟩)
      · have hlimit : min (regionEnd - p) limit = limit := by omega
        rw [if_neg hregion, hlimit] at hfind
        exact Or.inr (Or.inl ⟨by omega, hfind⟩)
    · rw [if_neg hb] at hfind
      exact Or.inr (Or.inr ⟨_, hp, Or.inr (Nat.le_refl _), hfind⟩)

end MarkerScan

namespace Reading

variable {α β : Type}

/-- Whatever comes of the step, the cursor does not go back. A failure is none that ends the
packets. -/
def Proceeds (m : Reading MemoryStream α) : Prop :=
  ∀ b p, ∃ q, p ≤ q ∧ ((∃ a, m (ofBytes b p) = .ok a (ofBytes b q)) ∨
    ∃ e, e ≠ .endOfStream ∧ m (ofBytes b p) = .error e (ofBytes b q))

namespace Proceeds

theorem pure (a : α) : Proceeds (pure a) := fun _ p => ⟨p, Nat.le_refl p, Or.inl ⟨a, rfl⟩⟩

theorem throw {e : Error} (he : e ≠ .endOfStream) :
    Proceeds (throw e : Reading MemoryStream α) :=
  fun _ p => ⟨p, Nat.le_refl p, Or.inr ⟨e, he, rfl⟩⟩

theorem bind {m : Reading MemoryStream α} {f : α → Reading MemoryStream β} (hm : Proceeds m)
    (hf : ∀ a, Proceeds (f a)) : Proceeds (m >>= f) := by
  intro b p
  obtain ⟨q, hq, ⟨a, h⟩ | ⟨e, he, h⟩⟩ := hm b p
  · obtain ⟨q', hq', hresult⟩ := hf a b q
    rw [bind_of_ok h]
    exact ⟨q', Nat.le_trans hq hq', hresult⟩
  · exact ⟨q, hq, Or.inr ⟨e, he, bind_of_error h⟩⟩

theorem ite {c : Prop} [Decidable c] {m m' : Reading MemoryStream α} (hm : Proceeds m)
    (hm' : Proceeds m') : Proceeds (if c then m else m') := by
  split
  · exact hm
  · exact hm'

theorem position : Proceeds Reading.position := fun _ p => ⟨p, Nat.le_refl p, Or.inl ⟨p, rfl⟩⟩

theorem remaining : Proceeds Reading.remaining :=
  fun b p => ⟨p, Nat.le_refl p, Or.inl ⟨b.length - p, rfl⟩⟩

theorem exactly (n : Nat) (field : String) : Proceeds (Reading.exactly n field) := by
  intro b p
  rw [exactly_ofBytes]
  split
  · exact ⟨p, Nat.le_refl p, Or.inr ⟨.truncatedInput field n _, nofun, rfl⟩⟩
  · exact ⟨p + n, Nat.le_add_right p n, Or.inl ⟨_, rfl⟩⟩

theorem uint16 (field : String) : Proceeds (Reading.uint16 field) :=
  (exactly 2 field).bind fun _ => .pure _

theorem uint32 (field : String) : Proceeds (Reading.uint32 field) :=
  (exactly 4 field).bind fun _ => .pure _

end Proceeds

end Reading

open Reading

namespace Packet

variable {x : Recording} {o : OpenOptions} {b : Bytes} {p : Nat}

theorem readFrame_proceeds (x : Recording) (offset : Nat) : Proceeds (readFrame x offset) := by
  simp only [readFrame, throw_bind]
  apply (Proceeds.uint16 _).bind
  intro id
  apply (Proceeds.uint32 _).bind
  intro number
  cases x.trackById? id with
  | none => exact .throw (by simp)
  | some track =>
    dsimp only
    cases track.index.get? number with
    | none => exact .throw (by simp)
    | some frame =>
      apply Proceeds.position.bind
      intro position
      apply Proceeds.remaining.bind
      intro available
      exact .ite (.throw (by simp)) ((Proceeds.exactly _ _).bind fun _ => .pure _)

/-- The payload stands behind the id and the number, is as long as the index says, and is passed. -/
theorem payload_of_readFrame {offset : Nat} {packet : Packet} {r' : MeasuredReader MemoryStream}
    (h : readFrame x offset (ofBytes b p) = .ok packet r') :
    packet.position = p + 6 ∧ packet.data.length = packet.recordSize.toNat - headerSize ∧
      packet.data <+: b.drop packet.position ∧
      packet.position + packet.data.length ≤ b.length ∧
      r' = ofBytes b (packet.position + packet.data.length) := by
  simp only [readFrame, throw_bind] at h
  obtain ⟨id, _, hid, h⟩ := bind_eq_ok.mp h
  obtain ⟨number, _, hnumber, h⟩ := bind_eq_ok.mp h
  obtain ⟨_, _, _, rfl, rfl⟩ := (Reads.uint16 _ b p id _).mp hid
  obtain ⟨_, _, hb, rfl, rfl⟩ := (Reads.uint32 _ b _ number _).mp hnumber
  have hheader := length_le_of_drop hb
  rw [toLittleEndian_length, toLittleEndian_length] at hheader
  cases htrack : x.trackById? id with
  | none =>
    simp only [htrack] at h
    exact absurd h throw_ne_ok
  | some track =>
    cases hframe : track.index.get? number with
    | none =>
      simp only [htrack, hframe] at h
      exact absurd h throw_ne_ok
    | some frame =>
      simp only [htrack, hframe] at h
      rw [bind_of_ok (position_apply _), bind_of_ok (remaining_apply _), check_eq_ok] at h
      obtain ⟨data, _, hdata, h⟩ := bind_eq_ok.mp h.2
      obtain ⟨_, rest, hdrop, ⟨hlength, rfl⟩, rfl⟩ := (Reads.exactly _ _ b _ data _).mp hdata
      obtain ⟨rfl, rfl⟩ := pure_eq_ok.mp h
      have hpayload := length_le_of_drop hdrop
      rw [toLittleEndian_length, toLittleEndian_length] at hpayload
      refine ⟨rfl, hlength, ⟨rest, hdrop.symm⟩, ?_, rfl⟩
      show p + 2 + 4 + data.length ≤ b.length
      omega

theorem readNext_cases (x : Recording) (o : OpenOptions) (b : Bytes) (p : Nat) :
    (∃ q, p ≤ q ∧ (x.mediaDataEnd ≤ q ∨ b.length ≤ q) ∧
      readNext x o (ofBytes b p) = .error .endOfStream (ofBytes b q)) ∨
    (p < x.mediaDataEnd ∧ p < b.length ∧
      readNext x o (ofBytes b p) =
        .error (.syncNotFound p (o.scanLimit x.mediaDataSize.toNat))
          (ofBytes b (p + o.scanLimit x.mediaDataSize.toNat))) ∨
    ∃ m, FirstMarkerAt (b.drop p) m ∧ p + m + 2 ≤ x.mediaDataEnd ∧
      readNext x o (ofBytes b p) = readFrame x (p + m) (ofBytes b (p + m + 2)) := by
  by_cases hend : x.mediaDataEnd ≤ p ∨ b.length ≤ p
  · exact Or.inl ⟨p, Nat.le_refl p, hend, readNext_of_end hend⟩
  · have hregion : p < x.mediaDataEnd := by omega
    have hb : p < b.length := by omega
    rw [readNext_eq hregion hb]
    rcases MarkerScan.findMarker_cases b x.mediaDataEnd (o.scanLimit x.mediaDataSize.toNat)
      (Nat.le_of_lt hb) with ⟨m, hm, hmend, hfind⟩ | ⟨-, hfind⟩ | ⟨q, hq, hqend, hfind⟩
    · exact Or.inr (Or.inr ⟨m, hm, hmend, bind_of_ok hfind⟩)
    · exact Or.inr (Or.inl ⟨hregion, hb, bind_of_error hfind⟩)
    · exact Or.inl ⟨q, hq, hqend, bind_of_error hfind⟩

end Packet

end KalayRecord
